import Mathlib.Algebra.Ring.Int.Defs
import Mathlib.Algebra.Ring.Nat
import Mathlib.Logic.Function.Basic
import Mathlib.Data.List.Nodup

/-! Reading a record out of a list of key-value pairs, the way derived deserialisers do: a key
names a field, is skipped, or is refused, and no field may come twice. -/

namespace Nexal

inductive KeyIdent where
  | refused
  | skipped
  | field (i : ℕ)
deriving DecidableEq

variable {κ ν : Type*} (ident : κ → KeyIdent)

/-- The values of the fields met so far, by field number. -/
abbrev Slots (ν : Type*) := ℕ → Option ν

def visitMap : Slots ν → List (κ × ν) → Option (Slots ν)
  | slots, [] => some slots
  | slots, (k, v) :: rest =>
    match ident k with
    | .refused => none
    | .skipped => visitMap slots rest
    | .field i => if (slots i).isSome then none else visitMap (Function.update slots i (some v)) rest

/-- The pairs that name a field. -/
def fieldPairs (entries : List (κ × ν)) : List (ℕ × ν) :=
  entries.filterMap fun e => match ident e.1 with
    | .field i => some (i, e.2)
    | _ => none

/-- Every key is known or skipped, and no field comes twice. -/
structure Readable (entries : List (κ × ν)) : Prop where
  keys : ∀ e ∈ entries, ident e.1 ≠ .refused
  once : ((fieldPairs ident entries).map (·.1)).Nodup

variable {ident}

theorem fieldPairs_cons_field {k : κ} {i : ℕ} (h : ident k = .field i) (v : ν) (es : List (κ × ν)) :
    fieldPairs ident ((k, v) :: es) = (i, v) :: fieldPairs ident es := by
  simp [fieldPairs, h]

theorem fieldPairs_cons_skipped {k : κ} (h : ident k = .skipped) (v : ν) (es : List (κ × ν)) :
    fieldPairs ident ((k, v) :: es) = fieldPairs ident es := by
  simp [fieldPairs, h]

theorem readable_nil : Readable ident ([] : List (κ × ν)) := ⟨by simp, by simp [fieldPairs]⟩

theorem readable_cons_skipped {k : κ} (h : ident k = .skipped) (v : ν) (es : List (κ × ν)) :
    Readable ident ((k, v) :: es) ↔ Readable ident es := by
  constructor
  · intro hr
    exact ⟨fun e he => hr.keys e (List.mem_cons_of_mem _ he), fieldPairs_cons_skipped h v es ▸ hr.once⟩
  · intro hr
    refine ⟨fun e he => ?_, (fieldPairs_cons_skipped h v es).symm ▸ hr.once⟩
    rcases List.mem_cons.mp he with rfl | he
    · simp [h]
    · exact hr.keys e he

theorem readable_cons_field {k : κ} {i : ℕ} (h : ident k = .field i) (v : ν) (es : List (κ × ν)) :
    Readable ident ((k, v) :: es) ↔ Readable ident es ∧ i ∉ (fieldPairs ident es).map (·.1) := by
  constructor
  · intro hr
    have honce := hr.once
    rw [fieldPairs_cons_field h, List.map_cons, List.nodup_cons] at honce
    exact ⟨⟨fun e he => hr.keys e (List.mem_cons_of_mem _ he), honce.2⟩, honce.1⟩
  · rintro ⟨hr, hi⟩
    refine ⟨fun e he => ?_, ?_⟩
    · rcases List.mem_cons.mp he with rfl | he
      · simp [h]
      · exact hr.keys e he
    · rw [fieldPairs_cons_field h, List.map_cons, List.nodup_cons]
      exact ⟨hi, hr.once⟩

/-- The loop reads a record exactly when the entries are readable and name no field that is
already there; it then holds what each entry says. -/
theorem visitMap_eq_some_iff {slots slots' : Slots ν} {es : List (κ × ν)} :
    visitMap ident slots es = some slots' ↔
      (Readable ident es ∧ ∀ p ∈ fieldPairs ident es, slots p.1 = none) ∧
      slots' = fun i => (slots i).or ((fieldPairs ident es).lookup i) := by
  induction es generalizing slots with
  | nil => simp [visitMap, fieldPairs, readable_nil, eq_comm]
  | cons e es ih =>
    obtain ⟨k, v⟩ := e
    unfold visitMap
    cases hk : ident k with
    | refused =>
      simp only [reduceCtorEq, false_iff, not_and]
      intro hr
      exact absurd hk (hr.1.keys (k, v) List.mem_cons_self)
    | skipped =>
      simp only
      rw [ih, readable_cons_skipped hk, fieldPairs_cons_skipped hk]
    | field i =>
      simp only
      rw [readable_cons_field hk, fieldPairs_cons_field hk]
      cases hi : slots i with
      | some v' =>
        simp only [Option.isSome_some, if_true, reduceCtorEq, false_iff, not_and]
        intro hr
        have := hr.2 (i, v) List.mem_cons_self
        rw [hi] at this
        cases this
      | none =>
        have hslots : (fun j => (Function.update slots i (some v) j).or ((fieldPairs ident es).lookup j)) =
            fun j => (slots j).or (((i, v) :: fieldPairs ident es).lookup j) := by
          funext j
          by_cases hj : j = i
          · subst hj
            simp [hi]
          · simp [hj, List.lookup_cons, beq_eq_false_iff_ne.mpr hj]
        have hfree : (∀ p ∈ fieldPairs ident es, Function.update slots i (some v) p.1 = none) ↔
            i ∉ (fieldPairs ident es).map (·.1) ∧ ∀ p ∈ fieldPairs ident es, slots p.1 = none := by
          constructor
          · intro h
            refine ⟨fun hmem => ?_, fun p hp => ?_⟩
            · obtain ⟨p, hp, rfl⟩ := List.mem_map.mp hmem
              simpa using h p hp
            · have hpi : p.1 ≠ i := by
                rintro rfl
                simpa using h p hp
              simpa [hpi] using h p hp
          · rintro ⟨hmem, h⟩ p hp
            have hpi : p.1 ≠ i := fun heq => hmem (List.mem_map.mpr ⟨p, hp, heq⟩)
            simpa [hpi] using h p hp
        rw [Option.isSome_none, if_neg Bool.false_ne_true, ih, hslots, hfree, List.forall_mem_cons]
        simp only [hi, true_and, and_assoc]

theorem visitMap_none_eq_some_iff {slots : Slots ν} {es : List (κ × ν)} :
    visitMap ident (fun _ => none) es = some slots ↔
      Readable ident es ∧ slots = fun i => (fieldPairs ident es).lookup i := by
  rw [visitMap_eq_some_iff]
  simp

/-- The pairs of a record, where absent fields are left out. -/
def presentPairs (fields : List (κ × Option ν)) : List (κ × ν) :=
  fields.filterMap fun f => f.2.map fun v => (f.1, v)

/-- Reading back the fields from number `k` on, one after the other. -/
theorem visitMap_presentPairs_from {fields : List (κ × Option ν)} {k : ℕ} {slots : Slots ν}
    (hident : ∀ j f, fields[j]? = some f → ident f.1 = .field (k + j))
    (hfree : ∀ i, k ≤ i → slots i = none) :
    visitMap ident slots (presentPairs fields) =
      some fun i => if i < k then slots i else fields[i - k]?.bind (·.2) := by
  induction fields generalizing k slots with
  | nil =>
    refine congrArg some (funext fun i => ?_)
    split_ifs with hi
    · rfl
    · simpa using hfree i (Nat.not_lt.mp hi)
  | cons f fields ih =>
    obtain ⟨key, value⟩ := f
    have hkey : ident key = .field k := hident 0 (key, value) rfl
    have hrest : ∀ j f, fields[j]? = some f → ident f.1 = .field (k + 1 + j) := by
      intro j f hj
      have := hident (j + 1) f hj
      rwa [Nat.add_comm j 1, ← Nat.add_assoc] at this
    have hget : ∀ i, k < i → ((key, value) :: fields)[i - k]? = fields[i - (k + 1)]? := by
      intro i hi
      rw [show i - k = i - (k + 1) + 1 by omega, List.getElem?_cons_succ]
    cases value with
    | none =>
      refine (ih hrest fun i hi => hfree i (by omega)).trans (congrArg some (funext fun i => ?_))
      rcases Nat.lt_trichotomy i k with hi | rfl | hi
      · rw [if_pos (by omega), if_pos hi]
      · simp [hfree i (Nat.le_refl i)]
      · rw [if_neg (by omega), if_neg (by omega), hget i hi]
    | some v =>
      have hstep : visitMap ident slots (presentPairs ((key, some v) :: fields)) =
          visitMap ident (Function.update slots k (some v)) (presentPairs fields) := by
        simp [presentPairs, visitMap, hkey, hfree k (Nat.le_refl k)]
      rw [hstep]
      refine (ih hrest fun i hi => ?_).trans (congrArg some (funext fun i => ?_))
      · rw [Function.update_of_ne (by omega)]
        exact hfree i (by omega)
      · rcases Nat.lt_trichotomy i k with hi | rfl | hi
        · rw [if_pos (by omega), if_pos hi, Function.update_of_ne (by omega)]
        · simp
        · rw [if_neg (by omega), if_neg (by omega), hget i hi]

theorem visitMap_presentPairs {fields : List (κ × Option ν)}
    (hident : ∀ j f, fields[j]? = some f → ident f.1 = .field j) :
    visitMap ident (fun _ => none) (presentPairs fields) = some fun i => fields[i]?.bind (·.2) := by
  have h : visitMap ident (fun _ => none) (presentPairs fields) =
      some fun i => if i < 0 then none else fields[i - 0]?.bind (·.2) :=
    visitMap_presentPairs_from (fun j f hj => by rw [Nat.zero_add]; exact hident j f hj) fun _ _ => rfl
  simpa using h

end Nexal
