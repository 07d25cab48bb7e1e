import Mathlib.Data.Rat.Defs
import Mathlib.Data.List.Basic

/-! JavaScript values as they stand in a `jsonb` column, and the few operations on records
that the tape code uses. A key whose value is `undefined` is an absent key. -/

namespace Nexal

/-- A finite JavaScript number. -/
abbrev JsNumber := ℚ

inductive Json where
  | null
  | bool (b : Bool)
  | num (n : JsNumber)
  | str (s : String)
  | arr (items : List Json)
  | obj (fields : List (String × Json))

/-- `Record<string, unknown>`, in key order. -/
abbrev Record := List (String × Json)

namespace Record

def get (r : Record) (key : String) : Option Json := r.lookup key

/-- `{ ...r, [key]: value }`: an existing key keeps its place. -/
def set : Record → String → Json → Record
  | [], key, value => [(key, value)]
  | f :: r, key, value => if f.1 = key then (key, value) :: r else f :: set r key value

/-- What the rest pattern of a destructuring keeps. -/
def without (r : Record) (keys : List String) : Record := r.filter fun f => !keys.contains f.1

theorem get_cons (f : String × Json) (r : Record) (key : String) :
    get (f :: r) key = if f.1 = key then some f.2 else get r key := by
  obtain ⟨name, value⟩ := f
  by_cases h : name = key
  · simp [get, h]
  · simp [get, List.lookup_cons, h, beq_eq_false_iff_ne.mpr (Ne.symm h)]

@[simp] theorem get_set (r : Record) (key : String) (value : Json) :
    get (set r key value) key = some value := by
  induction r with
  | nil => simp [set, get]
  | cons f r ih =>
    unfold set
    split_ifs with h
    · simp [get]
    · rw [get_cons, if_neg h, ih]

@[simp] theorem set_set (r : Record) (key : String) (v w : Json) :
    set (set r key v) key w = set r key w := by
  induction r with
  | nil => simp [set]
  | cons f r ih =>
    by_cases h : f.1 = key
    · simp [set, h]
    · simp only [set, if_neg h, ih]

theorem set_of_get {r : Record} {key : String} {v : Json} (h : get r key = some v) :
    set r key v = r := by
  induction r with
  | nil => cases h
  | cons f r ih =>
    rw [get_cons] at h
    unfold set
    split_ifs with hf
    · rw [if_pos hf] at h
      rw [← hf, ← Option.some.inj h]
    · rw [if_neg hf] at h
      rw [ih h]

end Record

/-- The left side of `??`: `null` counts as absent. -/
def nullish : Option Json → Option Json
  | some .null => none
  | v => v

def Json.truthy : Json → Bool
  | .null => false
  | .bool b => b
  | .num n => n ≠ 0
  | .str s => s ≠ ""
  | .arr _ | .obj _ => true

/-- `v?.[key]` for a value that may be no object. -/
def Json.field : Json → String → Option Json
  | .obj fields, key => Record.get fields key
  | _, _ => none

/-- The parts of the JavaScript runtime that the tape code calls. `Number` and `Date.parse`
give `none` for `NaN`, which a `jsonb` column stores as `null`. -/
structure JsRuntime where
  string : Json → String
  string_str : ∀ s, string (.str s) = s
  number : Json → Option JsNumber
  dateParse : String → Option JsNumber
  /-- `String.prototype.length`, in UTF-16 code units -/
  length : String → ℕ
  bufferFromBase64 : String → List UInt8
  bufferToBase64 : List UInt8 → String
  sha256 : String → String

end Nexal
