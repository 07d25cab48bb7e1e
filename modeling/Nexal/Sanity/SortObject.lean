import Nexal.Sanity.JsonText
import Nexal.Spec.TapeRecord

/-! Two values have one canonical text exactly when they are equal up to the order of keys. -/

namespace Nexal

namespace Tape

variable {nt : NumberText} (locale : LocaleCompare)

theorem sortItems_eq (items : List Json) : sortItems locale items = items.map (sortObject locale) := by
  induction items with
  | nil => rfl
  | cons v items ih => rw [sortItems, ih, List.map_cons]

theorem sortFields_eq (fields : Record) : sortFields locale fields = fields.map (Prod.map id (sortObject locale)) := by
  induction fields with
  | nil => rfl
  | cons f fields ih => rw [sortFields, ih, List.map_cons]; rfl

def byKey (f g : String × Json) : Prop := locale.compare f.1 g.1 ≤ 0

instance : DecidableRel (byKey locale) := fun f g => inferInstanceAs (Decidable (locale.compare f.1 g.1 ≤ 0))

instance : Std.Total (byKey locale) := ⟨fun f g => locale.total f.1 g.1⟩

instance : IsTrans (String × Json) (byKey locale) := ⟨fun f g h => locale.trans f.1 g.1 h.1⟩

theorem sortObject_obj (fields : Record) :
    sortObject locale (.obj fields) =
      .obj (fromEntries ((fields.map (Prod.map id (sortObject locale))).insertionSort (byKey locale))) := by
  rw [sortObject, sortFields_eq]
  rfl

/-- The keys alone decide the order: fields that are the same come out in one order. -/
theorem insertionSort_eq_of_perm {r r' : Record} (hkeys : (r.map Prod.fst).Nodup) (h : r.Perm r') :
    r.insertionSort (byKey locale) = r'.insertionSort (byKey locale) := by
  have hperm : (r.insertionSort (byKey locale)).Perm (r'.insertionSort (byKey locale)) :=
    (List.perm_insertionSort _ r).trans (h.trans (List.perm_insertionSort _ r').symm)
  refine hperm.eq_of_pairwise (fun f g hf hg hfg hgf => ?_) (List.pairwise_insertionSort _ r)
    (List.pairwise_insertionSort _ r')
  have hfr : f ∈ r := (List.mem_insertionSort _).mp hf
  have hgr : g ∈ r := h.mem_iff.mpr ((List.mem_insertionSort _).mp hg)
  exact List.inj_on_of_nodup_map hkeys hfr hgr (locale.antisymm f.1 g.1 hfg hgf)

theorem sorted_keys_nodup {r : Record} (hkeys : (r.map Prod.fst).Nodup) :
    (((r.map (Prod.map id (sortObject locale))).insertionSort (byKey locale)).map Prod.fst).Nodup := by
  have hperm := (List.perm_insertionSort (byKey locale) (r.map (Prod.map id (sortObject locale)))).map Prod.fst
  rw [hperm.nodup_iff, List.map_map]
  exact hkeys

theorem sortObject_valid {v : Json} (h : v.Valid nt) : (sortObject locale v).Valid nt := by
  induction h with
  | null => exact .null
  | bool b => exact .bool b
  | num hn => exact .num hn
  | str s => exact .str s
  | arr _ ih =>
    rw [sortObject, sortItems_eq]
    exact .arr (List.forall_mem_map.mpr ih)
  | @obj fields hkeys _ _ ih =>
    rw [sortObject_obj]
    refine valid_fromEntries (sorted_keys_nodup locale hkeys) fun f hf => ?_
    obtain ⟨g, hg, rfl⟩ := List.mem_map.mp ((List.mem_insertionSort _).mp hf)
    exact ih g hg

/-- What stands under each key of the sorted object. -/
theorem get_sorted {r : Record} (hkeys : (r.map Prod.fst).Nodup) (key : String) :
    Record.get (fromEntries ((r.map (Prod.map id (sortObject locale))).insertionSort (byKey locale))) key =
      (Record.get r key).map (sortObject locale) := by
  have hsorted := sorted_keys_nodup locale hkeys
  rw [fromEntries_eq hsorted, ← Record.get_map, ← Record.get_perm hsorted (ownOrder_perm _).symm]
  exact Record.get_perm hsorted (List.perm_insertionSort _ _) key

theorem equiv_sortObject {v : Json} (h : v.Valid nt) : Json.Equiv v (sortObject locale v) := by
  induction h with
  | null => exact .null
  | bool b => exact .bool b
  | num _ => exact .num _
  | str s => exact .str s
  | @arr items _ ih =>
    rw [sortObject, sortItems_eq]
    exact (Json.Equiv.of_map fun v hv => (ih v hv).symm).symm
  | @obj fields hkeys _ _ ih =>
    rw [sortObject_obj]
    refine .of_rel fun key => ?_
    rw [get_sorted locale hkeys]
    cases hv : Record.get fields key with
    | none => exact .none
    | some v => exact .some (ih (key, v) (Record.mem_of_get hv))

theorem sortObject_congr {v w : Json} (h : Json.Equiv v w) (hv : v.Valid nt) (hw : w.Valid nt) :
    sortObject locale v = sortObject locale w := by
  induction h with
  | null | bool b | num n | str s => rfl
  | @arr items items' hlen _ ih =>
    cases hv with | arr hitems =>
    cases hw with | arr hitems' =>
    rw [sortObject, sortObject, sortItems_eq, sortItems_eq]
    refine congrArg Json.arr (List.ext_getElem (by simpa using hlen) fun i hi hi' => ?_)
    rw [List.length_map] at hi hi'
    rw [List.getElem_map, List.getElem_map]
    exact ih i _ _ (List.getElem?_eq_getElem hi) (List.getElem?_eq_getElem hi') (hitems _ (List.getElem_mem hi))
      (hitems' _ (List.getElem_mem hi'))
  | @obj r r' hkeys _ ih =>
    cases hv with | obj hnodup _ hfields =>
    cases hw with | obj hnodup' _ hfields' =>
    rw [sortObject_obj, sortObject_obj]
    have hget : ∀ key, Record.get (r.map (Prod.map id (sortObject locale))) key =
        Record.get (r'.map (Prod.map id (sortObject locale))) key := by
      intro key
      have hsome := hkeys key
      rw [Record.get_map, Record.get_map]
      cases hr : Record.get r key with
      | none =>
        rw [hr, Option.isSome_none, eq_comm, Option.isSome_eq_false_iff, Option.isNone_iff_eq_none] at hsome
        rw [hsome]
      | some v =>
        rw [hr, Option.isSome_some, eq_comm, Option.isSome_iff_exists] at hsome
        obtain ⟨w, hr'⟩ := hsome
        rw [hr', Option.map_some, Option.map_some, ih key v w hr hr' (hfields _ (Record.mem_of_get hr))
          (hfields' _ (Record.mem_of_get hr'))]
    have hmapped : ∀ {r : Record}, (r.map Prod.fst).Nodup →
      ((r.map (Prod.map id (sortObject locale))).map Prod.fst).Nodup :=
      fun h => by rw [List.map_map]; exact h
    rw [insertionSort_eq_of_perm locale (hmapped hnodup) (Record.perm_of_get (hmapped hnodup) (hmapped hnodup') hget)]

/-- One canonical text, equal values. -/
theorem stableStringify_eq_iff {v w : Json} (hv : v.Valid nt) (hw : w.Valid nt) :
    stableStringify nt locale v = stableStringify nt locale w ↔ Json.Equiv v w := by
  constructor
  · intro h
    have heq := JsonText.stringify_inj (sortObject_valid locale hv) (sortObject_valid locale hw) h
    have hright := (equiv_sortObject locale hw).symm
    rw [← heq] at hright
    exact (equiv_sortObject locale hv).trans hright
  · intro h
    rw [stableStringify, stableStringify, sortObject_congr locale h hv hw]

end Tape

end Nexal
