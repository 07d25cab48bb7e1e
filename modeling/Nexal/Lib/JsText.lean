import Mathlib.Data.Int.Notation
import Mathlib.Data.List.TakeWhile

/-! White space as JavaScript's `trim` and `\s` have it, texts split at it, and texts as sequences of UTF-16 code units. -/

namespace Nexal.JsText

/-- White space and line ends. -/
def isSpace (c : Char) : Bool :=
  (0x9 ≤ c.toNat && c.toNat ≤ 0xD) || (0x2000 ≤ c.toNat && c.toNat ≤ 0x200A) ||
    [0x20, 0xA0, 0x1680, 0x2028, 0x2029, 0x202F, 0x205F, 0x3000, 0xFEFF].contains c.toNat

def trim (l : List Char) : List Char := ((l.dropWhile isSpace).reverse.dropWhile isSpace).reverse

/-- What stands between runs of white space. -/
def words (l : List Char) : List (List Char) := (l.splitOnP isSpace).filter (!·.isEmpty)

def ofDigits (digits : List Char) : ℕ := digits.foldl (fun n c => 10 * n + (c.toNat - '0'.toNat)) 0

/-- `Number.parseInt(text, 10)`, `none` for `NaN`. -/
def parseInt (text : String) : Option ℤ :=
  match text.toList.dropWhile isSpace with
  | '-' :: l => if (l.takeWhile Char.isDigit).isEmpty then none else some (-ofDigits (l.takeWhile Char.isDigit))
  | '+' :: l => if (l.takeWhile Char.isDigit).isEmpty then none else some (ofDigits (l.takeWhile Char.isDigit))
  | l => if (l.takeWhile Char.isDigit).isEmpty then none else some (ofDigits (l.takeWhile Char.isDigit))

theorem mem_trim {l : List Char} {c : Char} (h : c ∈ l) (hspace : isSpace c = false) : c ∈ trim l := by
  have hkeep : ∀ l : List Char, c ∈ l → c ∈ l.dropWhile isSpace := by
    intro l hc
    rw [← List.takeWhile_append_dropWhile (p := isSpace) (l := l)] at hc
    rcases List.mem_append.mp hc with htake | hdrop
    · rw [List.mem_takeWhile_imp htake] at hspace
      cases hspace
    · exact hdrop
  exact List.mem_reverse.mpr (hkeep _ (List.mem_reverse.mpr (hkeep l h)))

theorem exists_mem_splitOn {l : List Char} {c sep : Char} (h : c ∈ l) (hsep : c ≠ sep) :
    ∃ part ∈ l.splitOn sep, c ∈ part := by
  induction l with
  | nil => cases h
  | cons x l ih =>
    rw [List.splitOn_cons_eq_if_modifyHead]
    obtain ⟨first, rest, hsplit⟩ := List.exists_cons_of_ne_nil (List.splitOn_ne_nil sep l)
    rcases List.mem_cons.mp h with rfl | hl
    · rw [if_neg (by simpa using hsep), hsplit]
      exact ⟨c :: first, List.mem_cons_self, List.mem_cons_self⟩
    · obtain ⟨part, hpart, hc⟩ := ih hl
      split_ifs
      · exact ⟨part, List.mem_cons_of_mem _ hpart, hc⟩
      · rw [hsplit] at hpart ⊢
        rcases List.mem_cons.mp hpart with rfl | hrest
        · exact ⟨x :: part, List.mem_cons_self, List.mem_cons_of_mem _ hc⟩
        · exact ⟨part, List.mem_cons_of_mem _ hrest, hc⟩

/-! Code units -/

def isHighSurrogate (u : UInt16) : Bool := 0xD800 ≤ u && u < 0xDC00

def isLowSurrogate (u : UInt16) : Bool := 0xDC00 ≤ u && u < 0xE000

/-- `isWellFormed`: no half of a surrogate pair stands alone. -/
def wellFormed : List UInt16 → Bool
  | [] => true
  | [u] => !isHighSurrogate u && !isLowSurrogate u
  | u :: v :: l =>
    if isHighSurrogate u then isLowSurrogate v && wellFormed l else !isLowSurrogate u && wellFormed (v :: l)

/-- What follows a well-formed text in a well-formed text is well formed. -/
theorem wellFormed_of_append {l l' : List UInt16} (h : wellFormed l = true) (happend : wellFormed (l ++ l') = true) :
    wellFormed l' = true := by
  induction l using wellFormed.induct with
  | case1 => exact happend
  | case2 u =>
    rw [wellFormed, Bool.and_eq_true, Bool.not_eq_true', Bool.not_eq_true'] at h
    cases l' with
    | nil => rfl
    | cons v l' =>
      rw [List.singleton_append, wellFormed, if_neg (by rw [h.1]; exact Bool.false_ne_true), Bool.and_eq_true] at happend
      exact happend.2
  | case3 u v l hhigh ih =>
    rw [wellFormed, if_pos hhigh, Bool.and_eq_true] at h
    rw [List.cons_append, List.cons_append, wellFormed, if_pos hhigh, Bool.and_eq_true] at happend
    exact ih h.2 happend.2
  | case4 u v l hhigh ih =>
    rw [wellFormed, if_neg hhigh, Bool.and_eq_true] at h
    rw [List.cons_append, List.cons_append, wellFormed, if_neg hhigh, Bool.and_eq_true] at happend
    exact ih h.2 happend.2

end Nexal.JsText
