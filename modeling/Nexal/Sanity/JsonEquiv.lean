import Mathlib.Data.List.Forall2
import Nexal.Lib.Lists
import Nexal.Spec.Json

/-! Values that are equal up to the order of keys, at every depth. -/

namespace Nexal

inductive Json.Equiv : Json → Json → Prop where
  | null : Equiv .null .null
  | bool (b : Bool) : Equiv (.bool b) (.bool b)
  | num (n : JsNumber) : Equiv (.num n) (.num n)
  | str (s : String) : Equiv (.str s) (.str s)
  | arr {items items' : List Json} (hlen : items.length = items'.length)
    (hitems : ∀ (i : ℕ) (v w : Json), items[i]? = some v → items'[i]? = some w → Equiv v w) :
    Equiv (.arr items) (.arr items')
  | obj {r r' : Record} (hkeys : ∀ key, (Record.get r key).isSome = (Record.get r' key).isSome)
    (hfields : ∀ key v w, Record.get r key = some v → Record.get r' key = some w → Equiv v w) :
    Equiv (.obj r) (.obj r')

namespace Record

theorem mem_of_get {r : Record} {key : String} {v : Json} (h : get r key = some v) : (key, v) ∈ r :=
  Lists.mem_of_lookup_eq_some h

theorem get_eq_some_iff {r : Record} (hkeys : (r.map Prod.fst).Nodup) {key : String} {v : Json} :
    get r key = some v ↔ (key, v) ∈ r :=
  ⟨mem_of_get, Lists.lookup_eq_some_of_mem hkeys⟩

theorem get_perm {r r' : Record} (hkeys : (r.map Prod.fst).Nodup) (h : r.Perm r') (key : String) :
    get r key = get r' key := by
  have hkeys' := (h.map Prod.fst).nodup_iff.mp hkeys
  refine Option.ext fun v => ?_
  rw [get_eq_some_iff hkeys, get_eq_some_iff hkeys', h.mem_iff]

/-- Records with the same value under each key list the same fields. -/
theorem perm_of_get {r r' : Record} (hkeys : (r.map Prod.fst).Nodup) (hkeys' : (r'.map Prod.fst).Nodup)
    (h : ∀ key, get r key = get r' key) : r.Perm r' := by
  refine (List.perm_ext_iff_of_nodup hkeys.of_map hkeys'.of_map).mpr fun ⟨key, v⟩ => ?_
  rw [← get_eq_some_iff hkeys, ← get_eq_some_iff hkeys', h]

theorem get_map (g : Json → Json) (r : Record) (key : String) : get (r.map (Prod.map id g)) key = (get r key).map g := by
  induction r with
  | nil => rfl
  | cons f r ih =>
    rw [List.map_cons, get_cons, get_cons, ih]
    split_ifs with h h' h'
    · rfl
    · exact absurd h h'
    · exact absurd h' h
    · rfl

end Record

namespace Json

/-- Induction over the values inside a value. -/
@[elab_as_elim]
theorem induct {P : Json → Prop} (null : P .null) (bool : ∀ b, P (.bool b)) (num : ∀ n, P (.num n))
    (str : ∀ s, P (.str s))
    (arr : ∀ items : List Json, (∀ v ∈ items, P v) → P (.arr items))
    (obj : ∀ fields : Record, (∀ f ∈ fields, P f.2) → P (.obj fields)) (v : Json) : P v := by
  match v with
  | .null => exact null
  | .bool b => exact bool b
  | .num n => exact num n
  | .str s => exact str s
  | .arr items => exact arr items fun v hv => induct null bool num str arr obj v
  | .obj fields =>
    refine obj fields fun f hf => ?_
    obtain ⟨key, v⟩ := f
    exact induct null bool num str arr obj v
termination_by sizeOf v
decreasing_by
  · have hlt := List.sizeOf_lt_of_mem hv
    rw [Json.arr.sizeOf_spec]
    omega
  · have hlt := List.sizeOf_lt_of_mem hf
    rw [Prod.mk.sizeOf_spec] at hlt
    rw [Json.obj.sizeOf_spec]
    omega

theorem Equiv.refl (v : Json) : Equiv v v := by
  induction v using Json.induct with
  | null => exact .null
  | bool b => exact .bool b
  | num n => exact .num n
  | str s => exact .str s
  | arr items ih =>
    refine .arr rfl fun i v w hv hw => ?_
    obtain rfl := Option.some.inj (hv.symm.trans hw)
    exact ih v (List.mem_of_getElem? hv)
  | obj fields ih =>
    refine .obj (fun _ => rfl) fun key v w hv hw => ?_
    obtain rfl := Option.some.inj (hv.symm.trans hw)
    exact ih (key, v) (Record.mem_of_get hv)

theorem Equiv.symm {v w : Json} (h : Equiv v w) : Equiv w v := by
  induction h with
  | null => exact .null
  | bool b => exact .bool b
  | num n => exact .num n
  | str s => exact .str s
  | arr hlen _ ih => exact .arr hlen.symm fun i v w hv hw => ih i w v hw hv
  | obj hkeys _ ih => exact .obj (fun key => (hkeys key).symm) fun key v w hv hw => ih key w v hw hv

theorem Equiv.trans {u v w : Json} (h : Equiv u v) (h' : Equiv v w) : Equiv u w := by
  induction h generalizing w with
  | null => exact h'
  | bool b => exact h'
  | num n => exact h'
  | str s => exact h'
  | arr hlen _ ih =>
    cases h' with
    | arr hlen' hitems' =>
      refine .arr (hlen.trans hlen') fun i u w hu hw => ?_
      have hlt : i < _ := hlen ▸ (List.getElem?_eq_some_iff.mp hu).1
      have hv := List.getElem?_eq_getElem hlt
      exact ih i u _ hu hv (hitems' i _ w hv hw)
  | obj hkeys _ ih =>
    cases h' with
    | obj hkeys' hfields' =>
      refine .obj (fun key => (hkeys key).trans (hkeys' key)) fun key u w hu hw => ?_
      have hsome := hkeys key
      rw [hu, Option.isSome_some, eq_comm, Option.isSome_iff_exists] at hsome
      obtain ⟨v, hv⟩ := hsome
      exact ih key u v hu hv (hfields' key v w hv hw)

theorem Equiv.rel_refl (value : Option Json) : Option.Rel Equiv value value := by
  cases value with
  | none => exact .none
  | some v => exact .some (.refl v)

/-- What stands under a key of two equal records. -/
theorem Equiv.rel_get {r r' : Record} (h : Equiv (.obj r) (.obj r')) (key : String) :
    Option.Rel Equiv (Record.get r key) (Record.get r' key) := by
  cases h with
  | obj hkeys hfields =>
    have hsome := hkeys key
    cases hr : Record.get r key <;> cases hr' : Record.get r' key <;> rw [hr, hr'] at hsome
    case none.none => exact .none
    case none.some => cases hsome
    case some.none => cases hsome
    case some.some => exact .some (hfields key _ _ hr hr')

theorem Equiv.isSome_of_rel {a b : Option Json} (h : Option.Rel Equiv a b) : a.isSome = b.isSome := by cases h <;> rfl

theorem Equiv.of_rel {r r' : Record} (h : ∀ key, Option.Rel Equiv (Record.get r key) (Record.get r' key)) :
    Equiv (.obj r) (.obj r') := by
  refine .obj (fun key => ?_) fun key v w hv hw => ?_
  · exact isSome_of_rel (h key)
  · have hboth := h key
    rw [hv, hw] at hboth
    cases hboth with
    | some heq => exact heq

/-- Records with the same value under each key. -/
theorem Equiv.of_get {r r' : Record} (h : ∀ key, Record.get r key = Record.get r' key) : Equiv (.obj r) (.obj r') :=
  .of_rel fun key => h key ▸ rel_refl (Record.get r key)

theorem Equiv.of_map {f : Json → Json} {items : List Json} (h : ∀ v ∈ items, Equiv (f v) v) :
    Equiv (.arr (items.map f)) (.arr items) := by
  refine .arr (List.length_map f) fun i v w hv hw => ?_
  rw [List.getElem?_map, hw] at hv
  cases hv
  exact h w (List.mem_of_getElem? hw)

theorem Equiv.str_inj {s t : String} (h : Equiv (.str s) (.str t)) : s = t := by
  cases h
  rfl

theorem Equiv.of_forall₂ {items items' : List Json} (h : List.Forall₂ Equiv items items') :
    Equiv (.arr items) (.arr items') := by
  refine .arr h.length_eq fun i v w hv hw => ?_
  obtain ⟨hi, rfl⟩ := List.getElem?_eq_some_iff.mp hv
  obtain ⟨hi', rfl⟩ := List.getElem?_eq_some_iff.mp hw
  exact h.get hi hi'

end Json

/-- A runtime that knows strings and whole numbers, for runs on fixed values. -/
def plainStrings : JsRuntime where
  string v := match v with
    | .str s => s
    | .num n => toString n.num
    | _ => "[object Object]"
  string_str _ := rfl
  number _ := none
  dateParse _ := none
  length := String.length
  bufferFromBase64 _ := []
  bufferToBase64 _ := ""
  sha256 s := s

end Nexal
