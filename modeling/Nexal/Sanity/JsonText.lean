import Mathlib.Tactic.IntervalCases
import Nexal.Spec.JsonText
import Nexal.Sanity.JsonEquiv

/-! What `JSON.stringify` wrote, `JSON.parse` reads back. The values are those that JavaScript has:
numbers it can hold, and objects that list each key once and in their own order. -/

namespace Nexal

inductive Json.Valid (nt : NumberText) : Json → Prop where
  | null : Valid nt .null
  | bool (b : Bool) : Valid nt (.bool b)
  | num {n : JsNumber} (hn : nt.IsNumber n) : Valid nt (.num n)
  | str (s : String) : Valid nt (.str s)
  | arr {items : List Json} (hitems : ∀ v ∈ items, Valid nt v) : Valid nt (.arr items)
  | obj {fields : Record} (hkeys : (fields.map Prod.fst).Nodup) (horder : ownOrder fields = fields)
    (hfields : ∀ f ∈ fields, Valid nt f.2) : Valid nt (.obj fields)

/-! Objects -/

theorem foldl_set (r fields : Record) (h : ((r ++ fields).map Prod.fst).Nodup) :
    fields.foldl (fun r f => Record.set r f.1 f.2) r = r ++ fields := by
  induction fields generalizing r with
  | nil => simp
  | cons f fields ih =>
    have hnew : f.1 ∉ r.map Prod.fst := by
      intro hmem
      rw [List.map_append, List.nodup_append] at h
      exact h.2.2 f.1 hmem f.1 (by simp) rfl
    have hset : Record.set r f.1 f.2 = r ++ [f] := by
      clear ih h
      induction r with
      | nil => rfl
      | cons g r ih =>
        simp only [List.map_cons, List.mem_cons, not_or] at hnew
        simp [Record.set, Ne.symm hnew.1, ih hnew.2]
    rw [List.foldl_cons, hset, ih _ (by simpa using h)]
    simp

theorem ownOrder_perm {α : Type} (fields : List (String × α)) : (ownOrder fields).Perm fields := by
  have hsplit := List.filter_append_perm (fun f : String × α => (arrayIndex f.1).isSome) fields
  simp only [Option.not_isSome] at hsplit
  exact ((List.perm_insertionSort _ _).append_right _).trans hsplit

theorem ownOrder_ownOrder {α : Type} (fields : List (String × α)) : ownOrder (ownOrder fields) = ownOrder fields := by
  let byIndex (f g : String × α) : Prop := (arrayIndex f.1).getD 0 ≤ (arrayIndex g.1).getD 0
  have htotal : Std.Total byIndex := ⟨fun f g => Nat.le_total _ _⟩
  have htrans : IsTrans (String × α) byIndex := ⟨fun _ _ _ => Nat.le_trans⟩
  set indexed := (fields.filter fun f => (arrayIndex f.1).isSome).insertionSort byIndex with hindexed
  have hsorted : indexed.Pairwise byIndex := List.pairwise_insertionSort byIndex _
  have hsome : ∀ f ∈ indexed, (arrayIndex f.1).isSome = true := fun f hf =>
    (List.mem_filter.mp ((List.mem_insertionSort byIndex).mp hf)).2
  set named := fields.filter fun f => (arrayIndex f.1).isNone with hnamed
  have hnone : ∀ f ∈ named, (arrayIndex f.1).isNone = true := fun f hf => (List.mem_filter.mp hf).2
  have hfields : ownOrder fields = indexed ++ named := rfl
  have hsome' : (indexed ++ named).filter (fun f => (arrayIndex f.1).isSome) = indexed := by
    rw [List.filter_append, List.filter_eq_self.mpr hsome, List.filter_eq_nil_iff.mpr, List.append_nil]
    exact fun f hf => by simpa using hnone f hf
  have hnone' : (indexed ++ named).filter (fun f => (arrayIndex f.1).isNone) = named := by
    rw [List.filter_append, List.filter_eq_self.mpr hnone, List.filter_eq_nil_iff.mpr, List.nil_append]
    exact fun f hf => by simpa using Option.ne_none_iff_isSome.mpr (hsome f hf)
  rw [hfields, ownOrder, hsome', hnone']
  exact congrArg (· ++ named) hsorted.insertionSort_eq

theorem fromEntries_eq {fields : Record} (h : (fields.map Prod.fst).Nodup) : fromEntries fields = ownOrder fields := by
  rw [fromEntries, foldl_set [] fields h, List.nil_append]

/-- Without array indices among the keys they stay as they were added. -/
theorem ownOrder_eq_self {α : Type} {fields : List (String × α)} (h : ∀ f ∈ fields, arrayIndex f.1 = none) :
    ownOrder fields = fields := by
  rw [ownOrder, List.filter_eq_nil_iff.mpr fun f hf => by simp [h f hf], List.insertionSort_nil, List.nil_append,
    List.filter_eq_self]
  exact fun f hf => by simp [h f hf]

theorem ownOrder_map {α β : Type} (g : α → β) (fields : List (String × α)) :
    ownOrder (fields.map (Prod.map id g)) = (ownOrder fields).map (Prod.map id g) := by
  rw [ownOrder, ownOrder, List.map_append, List.filter_map, List.filter_map,
    List.map_insertionSort _ (fun f g : String × β => (arrayIndex f.1).getD 0 ≤ (arrayIndex g.1).getD 0)]
  · rfl
  · exact fun _ _ _ _ => Iff.rfl

theorem valid_fromEntries {nt : NumberText} {fields : Record} (hkeys : (fields.map Prod.fst).Nodup)
    (hfields : ∀ f ∈ fields, f.2.Valid nt) : (Json.obj (fromEntries fields)).Valid nt := by
  have hperm := ownOrder_perm fields
  rw [fromEntries_eq hkeys]
  refine .obj ((hperm.map Prod.fst).nodup_iff.mpr hkeys) (ownOrder_ownOrder fields) fun f hf => ?_
  exact hfields f (hperm.mem_iff.mp hf)

namespace JsonText

/-! Strings -/

theorem hexValue_hexDigit : ∀ n < 16, hexValue (hexDigit n) = some n := by decide

theorem unit_hex (c : Char) (cs : List Char) (h : c.toNat < 0x20) :
    unit ('0' :: '0' :: hexDigit (c.toNat / 16) :: hexDigit (c.toNat % 16) :: cs) = some (c.toNat, cs) := by
  have hzero : hexValue '0' = some 0 := by decide
  simp only [unit, hzero, hexValue_hexDigit (c.toNat / 16) (by omega), hexValue_hexDigit (c.toNat % 16) (by omega)]
  simp
  omega

theorem parseEscape_short {c letter : Char} (h : (c, letter) ∈ shortEscapes) (cs : List Char) :
    parseEscape (letter :: cs) = some (c, cs) := by
  simp only [shortEscapes, List.mem_cons, Prod.mk.injEq, List.not_mem_nil, or_false] at h
  rcases h with ⟨rfl, rfl⟩ | ⟨rfl, rfl⟩ | ⟨rfl, rfl⟩ | ⟨rfl, rfl⟩ | ⟨rfl, rfl⟩ | ⟨rfl, rfl⟩ |
    ⟨rfl, rfl⟩ <;> rfl

theorem parseString_backslash {c : Char} {cs rest : List Char} (h : parseEscape cs = some (c, rest)) (fuel : ℕ) :
    parseString (fuel + 1) ('\\' :: cs) = (parseString fuel rest).map fun p => (c :: p.1, p.2) := by
  rw [parseString, if_neg (by decide), if_pos rfl, h]
  cases hrest : parseString fuel rest <;> simp [hrest]

theorem parseString_escape (c : Char) (cs : List Char) (fuel : ℕ) :
    parseString (fuel + 1) (escape c ++ cs) = (parseString fuel cs).map fun p => (c :: p.1, p.2) := by
  unfold escape
  split
  case h_1 letter hletter =>
    exact parseString_backslash (parseEscape_short (Lists.mem_of_lookup_eq_some hletter) cs) fuel
  case h_2 hnone =>
    split_ifs with hc
    · have hescape : parseEscape ('u' :: '0' :: '0' :: hexDigit (c.toNat / 16) :: hexDigit (c.toNat % 16) :: cs) =
          some (c, cs) := by
        simp only [parseEscape, unit_hex c cs hc]
        simp [show ¬0xD800 ≤ c.toNat by omega, show ¬0xDC00 ≤ c.toNat by omega, Char.ofNat_toNat]
      exact parseString_backslash hescape fuel
    · have hquote : c ≠ '\u0022' := by rintro rfl; cases hnone
      have hslash : c ≠ '\\' := by rintro rfl; cases hnone
      simp only [List.cons_append, List.nil_append, parseString, if_neg hquote, if_neg hslash, if_neg hc]
      cases parseString fuel cs <;> rfl

theorem escape_length_pos (c : Char) : 0 < (escape c).length := by
  unfold escape
  split
  · simp
  · split_ifs <;> simp

theorem parseString_escaped (s rest : List Char) (fuel : ℕ) (hfuel : (s.flatMap escape).length < fuel) :
    parseString fuel (s.flatMap escape ++ '\u0022' :: rest) = some (s, rest) := by
  induction s generalizing fuel with
  | nil =>
    obtain ⟨fuel, rfl⟩ := Nat.exists_eq_succ_of_ne_zero (by omega : fuel ≠ 0)
    simp [parseString]
  | cons c s ih =>
    have hpos := escape_length_pos c
    rw [List.flatMap_cons, List.length_append] at hfuel
    obtain ⟨fuel, rfl⟩ := Nat.exists_eq_succ_of_ne_zero (by omega : fuel ≠ 0)
    rw [List.flatMap_cons, List.append_assoc, parseString_escape, ih fuel (by omega)]
    rfl

theorem parseString_quote (s : String) (rest : List Char) (fuel : ℕ) (hfuel : (quote s).length < fuel + 2) :
    parseString fuel ((s.toList.flatMap escape ++ ['\u0022']) ++ rest) = some (s.toList, rest) := by
  rw [List.append_assoc, List.singleton_append]
  refine parseString_escaped s.toList rest fuel ?_
  simp only [quote, List.length_cons, List.length_append, List.length_nil] at hfuel
  omega

section Values
variable (nt : NumberText)

/-! Values -/

/-- A number does not go on into this. -/
def Stops (rest : List Char) : Prop := ∀ c ∈ rest.head?, isNumberChar c = false

/-- The value is read back in front of anything that ends a number. -/
def Reads (v : Json) : Prop :=
  ∀ (fuel : ℕ) (rest : List Char), (text nt v).length < fuel → Stops rest →
    parseValue nt fuel (text nt v ++ rest) = some (v, rest)

variable {nt}

theorem reads_of_succ {v : Json} (h : ∀ (fuel : ℕ) (rest : List Char), (text nt v).length ≤ fuel → Stops rest →
    parseValue nt (fuel + 1) (text nt v ++ rest) = some (v, rest)) : Reads nt v := by
  intro fuel rest hfuel hstops
  cases fuel with
  | zero => omega
  | succ fuel => exact h fuel rest (by omega) hstops

theorem isNumberChar_of_mem {n : JsNumber} (hn : nt.IsNumber n) {c : Char} (hc : c ∈ nt.toText n) :
    isNumberChar c = true := by
  rcases nt.toText_chars n hn c hc with h | h
  · simp [isNumberChar, h]
  · simp only [isNumberChar, Bool.or_eq_true, List.contains_iff_mem]
    exact Or.inr h

theorem apart_of_isNumberChar {c : Char} (hc : isNumberChar c = true) :
    isSpace c = false ∧ c ∉ ['n', 't', 'f', '\u0022', '[', '{', ']', '}'] := by
  constructor
  · by_contra hspace
    simp only [isSpace, Bool.not_eq_false, Bool.or_eq_true, decide_eq_true_eq] at hspace
    rcases hspace with ((rfl | rfl) | rfl) | rfl <;> exact absurd hc (by decide)
  · intro hmem
    simp only [List.mem_cons, List.not_mem_nil, or_false] at hmem
    rcases hmem with rfl | rfl | rfl | rfl | rfl | rfl | rfl | rfl <;> exact absurd hc (by decide)

theorem text_head {v : Json} (h : v.Valid nt) :
    ∃ c cs, text nt v = c :: cs ∧ isSpace c = false ∧ c ∉ [']', '}'] := by
  cases h with
  | null => exact ⟨_, _, rfl, by decide, by decide⟩
  | bool b => cases b <;> exact ⟨_, _, rfl, by decide, by decide⟩
  | @num n hn =>
    obtain ⟨c, cs, hcs⟩ := List.exists_cons_of_ne_nil (nt.toText_ne_nil n hn)
    obtain ⟨hspace, hother⟩ := apart_of_isNumberChar (isNumberChar_of_mem hn (hcs ▸ List.mem_cons_self))
    exact ⟨c, cs, hcs, hspace, fun hc => hother (List.mem_of_mem_drop (i := 6) hc)⟩
  | str s => exact ⟨_, _, rfl, by decide, by decide⟩
  | arr _ => exact ⟨_, _, rfl, by decide, by decide⟩
  | obj _ _ _ => exact ⟨_, _, rfl, by decide, by decide⟩

theorem skipSpace_cons {c : Char} (h : isSpace c = false) (cs : List Char) : skipSpace (c :: cs) = c :: cs := by
  rw [skipSpace, List.dropWhile_cons, if_neg (by simp [h])]

theorem reads_null : Reads nt .null := by
  refine reads_of_succ fun fuel rest _ _ => ?_
  rw [text, List.cons_append, parseValue, skipSpace_cons (by decide)]
  rfl

theorem reads_bool (b : Bool) : Reads nt (.bool b) := by
  refine reads_of_succ fun fuel rest _ _ => ?_
  cases b <;> rw [text, List.cons_append, parseValue, skipSpace_cons (by decide)] <;> rfl

theorem reads_num {n : JsNumber} (hn : nt.IsNumber n) : Reads nt (.num n) := by
  refine reads_of_succ fun fuel rest _ hstops => ?_
  obtain ⟨c, cs, hcs⟩ := List.exists_cons_of_ne_nil (nt.toText_ne_nil n hn)
  obtain ⟨hspace, hother⟩ := apart_of_isNumberChar (isNumberChar_of_mem hn (hcs ▸ List.mem_cons_self))
  have hrest : rest.takeWhile isNumberChar = [] ∧ rest.dropWhile isNumberChar = rest := by
    cases rest with
    | nil => exact ⟨rfl, rfl⟩
    | cons d rest => simp [hstops d rfl]
  have htake : (text nt (.num n) ++ rest).takeWhile isNumberChar = nt.toText n := by
    rw [text, List.takeWhile_append_of_pos fun c hc => isNumberChar_of_mem hn hc, hrest.1, List.append_nil]
  have hdrop : (text nt (.num n) ++ rest).dropWhile isNumberChar = rest := by
    rw [text, List.dropWhile_append_of_pos fun c hc => isNumberChar_of_mem hn hc, hrest.2]
  have htext : text nt (.num n) ++ rest = c :: (cs ++ rest) := by rw [text, hcs, List.cons_append]
  have hskip := skipSpace_cons hspace (cs ++ rest)
  rw [← htext] at hskip
  rw [parseValue, hskip]
  split
  case h_7 => rw [htake, hdrop, nt.ofText_toText n hn]; rfl
  all_goals
    rename_i heq
    rw [htext] at heq
    obtain ⟨rfl, -⟩ := List.cons.inj heq
    exact absurd (by decide) hother

theorem reads_str (s : String) : Reads nt (.str s) := by
  refine reads_of_succ fun fuel rest hfuel _ => ?_
  rw [text] at hfuel
  rw [text, quote, List.cons_append, parseValue, skipSpace_cons (by decide)]
  simp only
  rw [parseString_quote s rest fuel (by omega), Option.map_some, String.ofList_toList]

theorem parseItems_text {items : List Json} (hne : items ≠ []) (hreads : ∀ v ∈ items, Reads nt v) (fuel : ℕ)
    (rest : List Char) (hfuel : (textItems nt items).length + 1 < fuel) :
    parseItems nt fuel (textItems nt items ++ ']' :: rest) = some (items, rest) := by
  induction items generalizing fuel with
  | nil => exact absurd rfl hne
  | cons v items ih =>
    obtain ⟨fuel, rfl⟩ := Nat.exists_eq_succ_of_ne_zero (by omega : fuel ≠ 0)
    have hread := hreads v List.mem_cons_self fuel
    cases items with
    | nil =>
      rw [textItems] at hfuel ⊢
      rw [parseItems, hread _ (by omega) (by rintro c ⟨⟩; decide), Option.bind_some, skipSpace_cons (by decide)]
      rfl
    | cons w items =>
      rw [textItems, List.length_append, List.length_cons] at hfuel
      have hrest := ih (List.cons_ne_nil w items) (fun v hv => hreads v (List.mem_cons_of_mem _ hv)) fuel (by omega)
      rw [textItems, List.append_assoc, List.cons_append, parseItems, hread _ (by omega) (by rintro c ⟨⟩; decide),
        Option.bind_some, skipSpace_cons (by decide)]
      simp only
      rw [hrest, Option.map_some]

theorem parseFields_text {fields : Record} (hne : fields ≠ []) (hreads : ∀ f ∈ fields, Reads nt f.2) (fuel : ℕ)
    (rest : List Char) (hfuel : (textFields nt fields).length + 1 < fuel) :
    parseFields nt fuel (textFields nt fields ++ '}' :: rest) = some (fields, rest) := by
  induction fields generalizing fuel with
  | nil => exact absurd rfl hne
  | cons f fields ih =>
    obtain ⟨key, v⟩ := f
    obtain ⟨fuel, rfl⟩ := Nat.exists_eq_succ_of_ne_zero (by omega : fuel ≠ 0)
    have hread := hreads (key, v) List.mem_cons_self fuel
    cases fields with
    | nil =>
      rw [textFields, List.length_append, List.length_cons] at hfuel
      rw [textFields, quote, List.append_assoc, List.cons_append, parseFields, skipSpace_cons (by decide)]
      simp only
      rw [List.cons_append, parseString_quote key _ fuel (by omega), Option.bind_some, skipSpace_cons (by decide)]
      simp only
      rw [hread _ (by simp only; omega) (by rintro c ⟨⟩; decide), Option.bind_some, skipSpace_cons (by decide)]
      simp only [String.ofList_toList]
    | cons g fields =>
      rw [textFields, List.length_append, List.length_cons, List.length_append, List.length_cons] at hfuel
      have hrest := ih (List.cons_ne_nil g fields) (fun f hf => hreads f (List.mem_cons_of_mem _ hf)) fuel (by omega)
      rw [textFields, quote, List.append_assoc, List.cons_append, parseFields, skipSpace_cons (by decide)]
      simp only
      rw [List.cons_append, parseString_quote key _ fuel (by omega), Option.bind_some, skipSpace_cons (by decide)]
      simp only
      rw [List.append_assoc, List.cons_append, hread _ (by simp only; omega) (by rintro c ⟨⟩; decide), Option.bind_some,
        skipSpace_cons (by decide)]
      simp only
      rw [hrest, Option.map_some, String.ofList_toList]

theorem reads_arr {items : List Json} (hvalid : ∀ v ∈ items, v.Valid nt) (hreads : ∀ v ∈ items, Reads nt v) :
    Reads nt (.arr items) := by
  refine reads_of_succ fun fuel rest hfuel _ => ?_
  rw [text, List.length_cons, List.length_append, List.length_singleton] at hfuel
  rw [text, List.cons_append, List.append_assoc, List.singleton_append, parseValue, skipSpace_cons (by decide)]
  simp only
  cases items with
  | nil =>
    rw [textItems, List.nil_append, skipSpace_cons (by decide)]
    rfl
  | cons v items =>
    have hitems := parseItems_text (List.cons_ne_nil v items) hreads fuel rest (by omega)
    obtain ⟨c, cs, htext, hspace, hclose⟩ := text_head (hvalid v List.mem_cons_self)
    have hhead : ∃ cs, textItems nt (v :: items) ++ ']' :: rest = c :: cs := by
      cases items with
      | nil => exact ⟨_, by rw [textItems, htext, List.cons_append]⟩
      | cons w items => exact ⟨_, by rw [textItems, htext, List.cons_append, List.cons_append]⟩
    obtain ⟨cs', hcs'⟩ := hhead
    rw [hcs'] at hitems ⊢
    rw [skipSpace_cons hspace]
    split
    case h_1 heq => exact absurd (List.cons.inj heq).1 fun h => hclose (by simp [h])
    case h_2 => rw [hitems, Option.map_some]

theorem reads_obj {fields : Record} (hkeys : (fields.map Prod.fst).Nodup) (horder : ownOrder fields = fields)
    (hreads : ∀ f ∈ fields, Reads nt f.2) : Reads nt (.obj fields) := by
  refine reads_of_succ fun fuel rest hfuel _ => ?_
  rw [text, List.length_cons, List.length_append, List.length_singleton] at hfuel
  rw [text, List.cons_append, List.append_assoc, List.singleton_append, parseValue, skipSpace_cons (by decide)]
  simp only
  cases fields with
  | nil =>
    rw [textFields, List.nil_append, skipSpace_cons (by decide)]
    rfl
  | cons f fields =>
    have hfields := parseFields_text (List.cons_ne_nil f fields) hreads fuel rest (by omega)
    have hhead : ∃ cs, textFields nt (f :: fields) ++ '}' :: rest = '\u0022' :: cs := by
      obtain ⟨key, v⟩ := f
      cases fields with
      | nil => exact ⟨_, by rw [textFields, quote, List.cons_append, List.cons_append]⟩
      | cons g fields => exact ⟨_, by rw [textFields, quote, List.cons_append, List.cons_append]⟩
    obtain ⟨cs, hcs⟩ := hhead
    rw [hcs] at hfields ⊢
    rw [skipSpace_cons (by decide)]
    split
    case h_1 heq => cases heq
    case h_2 => rw [hfields, Option.map_some, fromEntries_eq hkeys, horder]

theorem reads_of_valid {v : Json} (h : v.Valid nt) : Reads nt v := by
  induction h with
  | null => exact reads_null
  | bool b => exact reads_bool b
  | num hn => exact reads_num hn
  | str s => exact reads_str s
  | arr hvalid ih => exact reads_arr hvalid ih
  | obj hkeys horder _ ih => exact reads_obj hkeys horder ih

theorem parse_stringify {v : Json} (h : v.Valid nt) : parse nt (stringify nt v) = some v := by
  have hread := reads_of_valid h ((text nt v).length + 1) [] (by omega) (by rintro c ⟨⟩)
  rw [List.append_nil] at hread
  rw [parse, stringify, String.toList_ofList, hread]
  rfl

/-- Two values with one text are one value. -/
theorem stringify_inj {v w : Json} (hv : v.Valid nt) (hw : w.Valid nt) (h : stringify nt v = stringify nt w) : v = w := by
  have hparse := parse_stringify hv
  rw [h, parse_stringify hw] at hparse
  exact (Option.some.inj hparse).symm

end Values

def digits : NumberText where
  IsNumber n := ∃ k < 10, n = (k : ℕ)
  toText n := [Nat.digitChar n.num.toNat]
  ofText cs := (cs.head?.filter Char.isDigit).map fun c => ((c.toNat - 48 : ℕ) : ℚ)
  toText_ne_nil := by simp
  toText_chars := by
    rintro n ⟨k, hk, rfl⟩ c hc
    left
    rw [List.mem_singleton.mp hc]
    interval_cases k <;> decide
  ofText_toText := by
    rintro n ⟨k, hk, rfl⟩
    interval_cases k <;> rfl

end JsonText

end Nexal
