import Mathlib.Data.List.Infix

/-! Patterns of SQL's LIKE: a percent sign stands for any text, an underscore for any one character, and a character after
the escape for itself. -/

namespace Nexal.Like

inductive Part where
  | lit (c : Char)
  | one
  | many
deriving DecidableEq

/-- `none` for a pattern that ends with the escape. -/
def parts (esc : Char) : List Char → Option (List Part)
  | [] => some []
  | [c] => if c = esc then none else some [if c = '%' then .many else if c = '_' then .one else .lit c]
  | c :: d :: rest =>
    if c = esc then (parts esc rest).map (.lit d :: ·)
    else (parts esc (d :: rest)).map ((if c = '%' then .many else if c = '_' then .one else .lit c) :: ·)

def fits : List Part → List Char → Bool
  | [], text => text.isEmpty
  | .lit c :: pattern, x :: text => c = x && fits pattern text
  | .one :: pattern, _ :: text => fits pattern text
  | .many :: pattern, text => text.tails.any (fits pattern)
  | _ :: _, [] => false

/-- `text LIKE pattern ESCAPE esc`, `none` where the database refuses the pattern. -/
def like (esc : Char) (pattern text : List Char) : Option Bool := (parts esc pattern).map (fits · text)

def escape (esc : Char) (text : List Char) : List Char :=
  text.flatMap fun c => if c = esc ∨ c = '%' ∨ c = '_' then [esc, c] else [c]

variable {esc c : Char} {pattern : List Part} {text part rest : List Char}

theorem parts_cons (hc : c ≠ esc) (rest : List Char) : parts esc (c :: rest) =
    (parts esc rest).map ((if c = '%' then .many else if c = '_' then .one else .lit c) :: ·) := by
  cases rest with
  | nil => simp [parts, hc]
  | cons d rest => rw [parts, if_neg hc]

/-- What was escaped stands for itself, whatever follows it. -/
theorem parts_escape (text rest : List Char) :
    parts esc (escape esc text ++ rest) = (parts esc rest).map (text.map .lit ++ ·) := by
  induction text with
  | nil => simp [escape]
  | cons c text ih =>
    have hcons : escape esc (c :: text) = (if c = esc ∨ c = '%' ∨ c = '_' then [esc, c] else [c]) ++
      escape esc text := rfl
    rw [hcons, List.append_assoc]
    split_ifs with hspecial
    · rw [List.cons_append, List.singleton_append, parts, if_pos rfl, ih, Option.map_map]
      rfl
    · obtain ⟨hesc, hmany, hone⟩ := not_or.mp hspecial |>.imp_right not_or.mp
      rw [List.singleton_append, parts_cons hesc, ih, if_neg hmany, if_neg hone, Option.map_map]
      rfl

theorem fits_many : fits (.many :: pattern) text = true ↔
    ∃ skipped rest, text = skipped ++ rest ∧ fits pattern rest = true := by
  rw [fits, List.any_eq_true]
  constructor
  · rintro ⟨rest, hsuffix, hrest⟩
    obtain ⟨skipped, rfl⟩ := (List.mem_tails _ _).mp hsuffix
    exact ⟨skipped, rest, rfl, hrest⟩
  · rintro ⟨skipped, rest, rfl, hrest⟩
    exact ⟨rest, (List.mem_tails _ _).mpr (List.suffix_append _ _), hrest⟩

theorem fits_nil : fits [] text = true ↔ text = [] := by simp [fits]

theorem fits_lits : fits (part.map .lit ++ pattern) text = true ↔
    ∃ rest, text = part ++ rest ∧ fits pattern rest = true := by
  induction part generalizing text with
  | nil => simp
  | cons c part ih =>
    cases text with
    | nil => simp [fits]
    | cons x text =>
      rw [List.map_cons, List.cons_append, fits, Bool.and_eq_true, decide_eq_true_iff, ih]
      constructor
      · rintro ⟨rfl, rest, rfl, hrest⟩
        exact ⟨rest, rfl, hrest⟩
      · rintro ⟨rest, heq, hrest⟩
        obtain ⟨rfl, rfl⟩ := List.cons.inj heq
        exact ⟨rfl, rest, rfl, hrest⟩

/-- An escaped text between percent signs fits the texts that it is a part of. -/
theorem like_escape (hesc : esc ≠ '%') (part text : List Char) :
    like esc ('%' :: (escape esc part ++ ['%'])) text = some (decide (part <:+: text)) := by
  have hparts : parts esc ('%' :: (escape esc part ++ ['%'])) = some (.many :: (part.map .lit ++ [.many])) := by
    rw [parts_cons hesc.symm, parts_escape, parts_cons hesc.symm, parts]
    rfl
  rw [like, hparts, Option.map_some]
  congr 1
  rw [Bool.eq_iff_iff, decide_eq_true_iff, fits_many]
  constructor
  · rintro ⟨before, rest, rfl, hrest⟩
    obtain ⟨after, rfl, -⟩ := fits_lits.mp hrest
    exact ⟨before, after, List.append_assoc _ _ _⟩
  · rintro ⟨before, after, rfl⟩
    refine ⟨before, part ++ after, List.append_assoc _ _ _, fits_lits.mpr ⟨after, rfl, ?_⟩⟩
    exact fits_many.mpr ⟨after, [], (List.append_nil _).symm, fits_nil.mpr rfl⟩

end Nexal.Like
