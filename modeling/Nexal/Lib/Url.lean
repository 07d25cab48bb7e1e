import Mathlib.Algebra.BigOperators.Group.List.Basic
import Mathlib.Algebra.Order.Group.Nat
import Mathlib.Data.List.DropRight
import Mathlib.Data.List.Induction
import Nexal.Lib.Percent

/-! Parsing of `http` and `https` URLs as the URL standard has it: what is stripped, where the parts
end, which characters are escaped and which segments of the path are taken away. What the parser makes of
user, host and port is left open. -/

namespace Nexal.Url

open Percent
open Utf8 (bytes bytes_cons)

/-! What is escaped -/

def c0Set (c : Char) : Bool := c.toNat ≤ 0x1F || 0x7E < c.toNat

/-- The set for the query of an `http` or `https` URL: a space, quotes, a hash, angle brackets. -/
def querySet (c : Char) : Bool := c0Set c || [0x20, 0x22, 0x23, 0x27, 0x3C, 0x3E].contains c.toNat

/-- The set for a path, with the question mark, the backtick and braces, and in later versions of the
standard the circumflex. -/
def pathSet (caret : Bool) (c : Char) : Bool :=
  c0Set c || [0x20, 0x22, 0x23, 0x3C, 0x3E, 0x3F, 0x60, 0x7B, 0x7D].contains c.toNat || caret && c = '^'

/-! Segments -/

def isSlash (c : Char) : Bool := c = '/' || c = '\\'

def singleDot (seg : List Char) : Bool := [".", "%2e"].contains (String.ofList (seg.map Char.toLower))

def doubleDot (seg : List Char) : Bool := ["..", ".%2e", "%2e.", "%2e%2e"].contains (String.ofList (seg.map Char.toLower))

def isDot (seg : List Char) : Bool := singleDot seg || doubleDot seg

/-- A segment that a slash ends. -/
def enter (path : List (List Char)) (seg : List Char) : List (List Char) :=
  if doubleDot seg then path.dropLast else if singleDot seg then path else path ++ [seg]

/-- The last segment of a path is a name, or nothing after a slash. -/
def finish (path : List (List Char)) (seg : List Char) : List (List Char) :=
  if isDot seg then enter path seg ++ [[]] else path ++ [seg]

def walk (path : List (List Char)) : List (List Char) → List (List Char)
  | [] => path
  | [seg] => finish path seg
  | seg :: segs => walk (enter path seg) segs

def render (path : List (List Char)) : List Char := path.flatMap ('/' :: ·)

/-! Parts -/

structure Parts where
  scheme : List Char
  authority : List Char
  /-- nothing, or a slash and what follows it -/
  path : List Char
  query : Option (List Char)

def trimmed (c : Char) : Bool := c.toNat ≤ 0x20

def removed (c : Char) : Bool := c = '\t' || c = '\n' || c = '\r'

def cleanTail (l : List Char) : List Char := (l.rdropWhile trimmed).filter (!removed ·)

/-- What the parser gets to read. -/
def clean (l : List Char) : List Char := cleanTail (l.dropWhile trimmed)

def endsAuthority (c : Char) : Bool := isSlash c || c = '?' || c = '#'

def endsPath (c : Char) : Bool := c = '?' || c = '#'

/-- The query of what follows the path; a fragment is no part of a request. -/
def queryOf : List Char → Option (List Char)
  | '?' :: query => some (query.takeWhile (· ≠ '#'))
  | _ => none

def afterScheme (l : List Char) : List Char := ((l.dropWhile (· ≠ ':')).drop 1).dropWhile isSlash

def afterAuthority (l : List Char) : List Char := (afterScheme l).dropWhile (!endsAuthority ·)

def partsOf (l : List Char) : Parts where
  scheme := (l.takeWhile (· ≠ ':')).map Char.toLower
  authority := (afterScheme l).takeWhile (!endsAuthority ·)
  path := (afterAuthority l).takeWhile (!endsPath ·)
  query := queryOf ((afterAuthority l).dropWhile (!endsPath ·))

def parts (l : List Char) : Parts := partsOf (clean l)

def segments (path : List Char) : List (List Char) := (path.drop 1).splitOnP isSlash

/-- The segments of a path to which others are added. -/
def entries : List Char → List (List Char)
  | [] => []
  | _ :: rest => rest.splitOnP isSlash

/-- A URL, with what is left open for the authority. -/
structure Record (α : Type) where
  scheme : List Char
  authority : α
  path : List Char
  query : Option (List Char)

/-- How a parser reads what the standard leaves to other standards. -/
structure Flavour (α : Type) where
  authority : List Char → List Char → Option α
  caret : Bool

def Flavour.parse {α : Type} (f : Flavour α) (l : List Char) : Option (Record α) :=
  let p := parts l
  if p.scheme = "http".toList ∨ p.scheme = "https".toList then
    (if p.authority = [] then none else f.authority p.scheme p.authority).map fun a =>
      ⟨p.scheme, a, render (walk [] ((segments p.path).map (encode (pathSet f.caret)))), p.query.map (encode querySet)⟩
  else none

/-! Walking a path -/

/-- The bytes of a path that is written out. -/
def weight (path : List (List Char)) : ℕ := (path.map fun seg => 1 + (percentDecode seg).length).sum

@[simp] theorem weight_cons (seg : List Char) (path : List (List Char)) :
    weight (seg :: path) = 1 + (percentDecode seg).length + weight path := by
  rw [weight, List.map_cons, List.sum_cons, weight]

@[simp] theorem weight_append (p q : List (List Char)) : weight (p ++ q) = weight p + weight q := by
  rw [weight, List.map_append, List.sum_append, weight, weight]

theorem render_cons (seg : List Char) (path : List (List Char)) : render (seg :: path) = '/' :: (seg ++ render path) :=
  List.flatMap_cons

theorem render_append (p q : List (List Char)) : render (p ++ q) = render p ++ render q := List.flatMap_append

theorem render_replicate (k : ℕ) : render (List.replicate k []) = List.replicate k '/' := by
  induction k with
  | zero => rfl
  | succ k ih => rw [List.replicate_succ, render_cons, ih, List.nil_append, List.replicate_succ]

theorem length_percentDecode_slash (l : List Char) : (percentDecode ('/' :: l)).length = 1 + (percentDecode l).length := by
  rw [percentDecode_cons_of_ne (by decide), List.length_append]
  rfl

theorem length_percentDecode_render (path : List (List Char)) : (percentDecode (render path)).length = weight path := by
  induction path with
  | nil => rfl
  | cons seg path ih =>
    rw [render_cons, length_percentDecode_slash, weight_cons, ← ih]
    cases path with
    | nil => simp [render, percentDecode]
    | cons seg' path =>
      rw [render_cons, percentDecode_append (by decide), List.length_append, Nat.add_assoc]

theorem weight_dropLast_le (path : List (List Char)) : weight path.dropLast ≤ weight path := by
  induction path using List.reverseRecOn with
  | nil => exact Nat.le_refl _
  | append_singleton path seg _ =>
    rw [List.dropLast_concat, weight_append]
    omega

theorem enter_of_not {seg : List Char} (h : isDot seg = false) (path : List (List Char)) :
    enter path seg = path ++ [seg] := by
  obtain ⟨hsingle, hdouble⟩ := Bool.or_eq_false_iff.mp h
  rw [enter, if_neg (Bool.eq_false_iff.mp hdouble), if_neg (Bool.eq_false_iff.mp hsingle)]

theorem weight_enter_dot {seg : List Char} (h : isDot seg = true) (path : List (List Char)) :
    weight (enter path seg) ≤ weight path := by
  unfold enter
  split_ifs with hdouble hsingle
  · exact weight_dropLast_le path
  · exact Nat.le_refl _
  · rcases Bool.or_eq_true_iff.mp h with h | h
    · exact absurd h hsingle
    · exact absurd h hdouble

theorem ne_nil_of_isDot {seg : List Char} (h : isDot seg = true) : 0 < (percentDecode seg).length := by
  refine List.length_pos_iff.mpr (percentDecode_ne_nil ?_)
  rintro rfl
  revert h
  decide

/-- A dot segment takes away more bytes than it leaves. -/
theorem weight_walk (path segs : List (List Char)) : weight (walk path segs) ≤ weight path + weight segs ∧
    (weight (walk path segs) = weight path + weight segs → ∀ seg ∈ segs, isDot seg = false) := by
  fun_induction walk path segs with
  | case1 path => exact ⟨Nat.le_refl _, by simp⟩
  | case2 path seg =>
    rw [finish, weight_cons]
    split_ifs with hdot
    · have hle := weight_enter_dot hdot path
      have hpos := ne_nil_of_isDot hdot
      have hslash : weight [[]] = 1 := rfl
      rw [weight_append, hslash]
      refine ⟨by omega, fun heq => ?_⟩
      omega
    · rw [weight_append, weight_cons]
      refine ⟨Nat.le_refl _, fun _ seg' hseg' => ?_⟩
      rw [List.mem_singleton.mp hseg']
      exact Bool.eq_false_iff.mpr hdot
  | case3 path seg segs hne ih =>
    rw [weight_cons]
    cases hdot : isDot seg with
    | true =>
      have hle := weight_enter_dot hdot path
      have hpos := ne_nil_of_isDot hdot
      refine ⟨by omega, fun heq => ?_⟩
      omega
    | false =>
      have henter : weight (enter path seg) = weight path + (1 + (percentDecode seg).length) := by
        rw [enter_of_not hdot, weight_append, weight_cons]
        rfl
      refine ⟨by omega, fun heq => ?_⟩
      exact List.forall_mem_cons.mpr ⟨hdot, ih.2 (by omega)⟩

theorem walk_of_not {segs : List (List Char)} (h : ∀ seg ∈ segs, isDot seg = false) (path : List (List Char)) :
    walk path segs = path ++ segs := by
  fun_induction walk path segs with
  | case1 path => exact (List.append_nil path).symm
  | case2 path seg => rw [finish, if_neg (Bool.eq_false_iff.mp (h seg List.mem_cons_self))]
  | case3 path seg segs hne ih =>
    obtain ⟨hseg, hsegs⟩ := List.forall_mem_cons.mp h
    rw [ih hsegs, enter_of_not hseg, List.append_assoc, List.singleton_append]

theorem walk_cons {segs : List (List Char)} (h : segs ≠ []) (path : List (List Char)) (seg : List Char) :
    walk path (seg :: segs) = walk (enter path seg) segs := by
  cases segs with
  | nil => exact absurd rfl h
  | cons seg' segs => rfl

theorem walk_append {segs' : List (List Char)} (h : segs' ≠ []) (path segs : List (List Char)) :
    walk path (segs ++ segs') = walk (segs.foldl enter path) segs' := by
  induction segs generalizing path with
  | nil => rfl
  | cons seg segs ih =>
    rw [List.cons_append, walk_cons (List.append_ne_nil_of_right_ne_nil segs h), ih]
    rfl

/-! Splitting a path -/

/-- A backslash is read as a slash. -/
def slashes (l : List Char) : List Char := l.map fun c => if isSlash c then '/' else c

theorem segments_append {s : Char} (hs : isSlash s = true) (path l : List Char) :
    segments (path ++ s :: l) = entries path ++ l.splitOnP isSlash := by
  cases path with
  | nil => rfl
  | cons c rest => exact List.splitOnP_append_cons rest l hs

theorem render_split {set : Char → Bool} (hset : set '/' = false) (l : List Char) :
    render ((l.splitOnP isSlash).map (encode set)) = '/' :: encode set (slashes l) := by
  induction l with
  | nil => rfl
  | cons c l ih =>
    rw [List.splitOnP_cons_eq_if_modifyHead]
    split_ifs with hc
    · have hslash : slashes (c :: l) = '/' :: slashes l := by
        rw [slashes, List.map_cons, if_pos hc]
        rfl
      rw [List.map_cons, render_cons, ih, hslash, encode_cons, encodeChar_of_not hset]
      rfl
    · have hkept : slashes (c :: l) = c :: slashes l := by
        rw [slashes, List.map_cons, if_neg hc]
        rfl
      rw [hkept, encode_cons]
      obtain ⟨seg, segs, hsplit⟩ := List.exists_cons_of_ne_nil (List.splitOnP_ne_nil isSlash l)
      rw [hsplit, List.map_cons, render_cons, List.cons.injEq] at ih
      rw [hsplit, List.modifyHead_cons, List.map_cons, render_cons, encode_cons, List.append_assoc, ih.2]

theorem not_slash_of_mem_split {seg l : List Char} (h : seg ∈ l.splitOnP isSlash) : ∀ c ∈ seg, isSlash c = false := by
  induction l generalizing seg with
  | nil =>
    rw [List.splitOnP_nil, List.mem_singleton] at h
    rw [h]
    simp
  | cons x l ih =>
    rw [List.splitOnP_cons_eq_if_modifyHead] at h
    split_ifs at h with hx
    · rcases List.mem_cons.mp h with rfl | h
      · simp
      · exact ih h
    · obtain ⟨first, others, hsplit⟩ := List.exists_cons_of_ne_nil (List.splitOnP_ne_nil isSlash l)
      rw [hsplit] at ih h
      rcases List.mem_cons.mp h with rfl | h
      · exact List.forall_mem_cons.mpr ⟨Bool.eq_false_iff.mpr hx, ih List.mem_cons_self⟩
      · exact ih (List.mem_cons_of_mem first h)

theorem length_bytes_slashes (l : List Char) : (bytes (slashes l)).length = (bytes l).length := by
  induction l with
  | nil => rfl
  | cons c l ih =>
    have hc : (String.utf8EncodeChar (if isSlash c then '/' else c)).length = (String.utf8EncodeChar c).length := by
      split_ifs with h
      · rcases Bool.or_eq_true_iff.mp h with h | h
        · rw [of_decide_eq_true h]
        · rw [of_decide_eq_true h]
          rfl
      · rfl
    rw [slashes, List.map_cons, bytes_cons, List.length_append, hc, bytes_cons, List.length_append, ← ih, slashes]

theorem isSlash_cases {c : Char} (h : isSlash c = true) : c = '/' ∨ c = '\\' := by
  rcases Bool.or_eq_true_iff.mp h with h | h
  · exact Or.inl (of_decide_eq_true h)
  · exact Or.inr (of_decide_eq_true h)

theorem slashes_eq_self {l : List Char} (h : '\\' ∉ l) : slashes l = l := by
  refine (List.map_congr_left fun c hc => ?_).trans (List.map_id l)
  split_ifs with hslash
  · rcases isSlash_cases hslash with rfl | rfl
    · rfl
    · exact absurd hc h
  · rfl

theorem not_mem_slashes (l : List Char) : '\\' ∉ slashes l := by
  intro h
  obtain ⟨c, -, hc⟩ := List.mem_map.mp h
  split_ifs at hc with hslash
  · revert hc
    decide
  · rw [hc] at hslash
    exact hslash rfl

theorem keepsEscapes_pathSet (caret : Bool) : KeepsEscapes (pathSet caret) := by
  refine keepsEscapes_of ?_
  cases caret <;> decide

theorem pathSet_slash (caret : Bool) : pathSet caret '/' = false := by
  cases caret <;> rfl

theorem mem_encode_querySet {c : Char} {l : List Char} (h : c ∈ encode querySet l) : querySet c = false := by
  have hescape : ∀ n < 16, querySet (hexUpper n) = false := by decide
  obtain ⟨d, -, hd⟩ := List.mem_flatMap.mp h
  unfold encodeChar at hd
  split_ifs at hd with hset
  · obtain ⟨b, -, hb⟩ := List.mem_flatMap.mp hd
    have hlt := b.toNat_lt
    rcases List.mem_cons.mp hb with rfl | hb
    · rfl
    rcases List.mem_cons.mp hb with rfl | hb
    · exact hescape _ (by omega)
    · rw [List.mem_singleton.mp hb]
      exact hescape _ (by omega)
  · rw [List.mem_singleton.mp hd]
    exact Bool.eq_false_iff.mpr hset

/-! Parts of a text that goes on -/

theorem span_append {p : Char → Bool} {l : List Char} (h : l.dropWhile p ≠ []) (l' : List Char) :
    (l ++ l').dropWhile p = l.dropWhile p ++ l' ∧ (l ++ l').takeWhile p = l.takeWhile p := by
  have hlength : (l.takeWhile p).length ≠ l.length := by
    intro heq
    have hsplit := congrArg List.length (List.takeWhile_append_dropWhile (p := p) (l := l))
    rw [List.length_append, heq] at hsplit
    exact h (List.length_eq_zero_iff.mp (by omega))
  rw [List.dropWhile_append, List.takeWhile_append, if_neg hlength, if_neg (by simpa using h)]
  exact ⟨rfl, rfl⟩

theorem span_append_of_head {p : Char → Bool} {l' : List Char} (h : ∀ c ∈ l'.head?, p c = false) (l : List Char) :
    (l ++ l').dropWhile p = l.dropWhile p ++ l' ∧ (l ++ l').takeWhile p = l.takeWhile p := by
  induction l with
  | nil =>
    cases l' with
    | nil => exact ⟨rfl, rfl⟩
    | cons c l' =>
      have hc := h c rfl
      simp [hc]
  | cons c l ih =>
    simp only [List.cons_append, List.dropWhile_cons, List.takeWhile_cons]
    split_ifs
    · exact ⟨ih.1, congrArg (c :: ·) ih.2⟩
    · exact ⟨rfl, rfl⟩

theorem rdropWhile_append (p : Char → Bool) (l l' : List Char) :
    (l ++ l').rdropWhile p = if l'.rdropWhile p = [] then l.rdropWhile p else l ++ l'.rdropWhile p := by
  simp only [List.rdropWhile, List.reverse_append, List.dropWhile_append, List.isEmpty_iff, List.reverse_eq_nil_iff]
  split_ifs
  · rfl
  · rw [List.reverse_append, List.reverse_reverse]

theorem rdropWhile_cons_of_not {p : Char → Bool} {c : Char} (h : p c = false) (l : List Char) :
    (c :: l).rdropWhile p = c :: l.rdropWhile p := by
  have hc : [c].rdropWhile p = [c] := by rw [List.rdropWhile_singleton, if_neg (Bool.eq_false_iff.mp h)]
  have happend := rdropWhile_append p [c] l
  rw [List.singleton_append, hc] at happend
  split_ifs at happend with hnil
  · rw [happend, hnil]
  · exact happend

theorem cleanTail_cons {c : Char} (htrimmed : trimmed c = false) (hremoved : removed c = false) (l : List Char) :
    cleanTail (c :: l) = c :: cleanTail l := by
  rw [cleanTail, rdropWhile_cons_of_not htrimmed, List.filter_cons_of_pos (by rw [hremoved]; rfl), cleanTail]

theorem cleanTail_append_cons {c : Char} (htrimmed : trimmed c = false) (hremoved : removed c = false) (l l' : List Char) :
    cleanTail (l ++ c :: l') = l.filter (!removed ·) ++ c :: cleanTail l' := by
  have hne : (c :: l').rdropWhile trimmed ≠ [] := by
    rw [rdropWhile_cons_of_not htrimmed]
    exact List.cons_ne_nil _ _
  rw [cleanTail, rdropWhile_append, if_neg hne, List.filter_append, ← cleanTail, cleanTail_cons htrimmed hremoved]

theorem cleanTail_sublist (l : List Char) : (cleanTail l).Sublist l :=
  List.filter_sublist.trans (List.rdropWhile_prefix trimmed l).sublist

/-- A text whose end stays is cleaned up to there, whatever follows. -/
theorem clean_append {l : List Char} (hdrop : l.dropWhile trimmed ≠ []) (hlast : l.rdropWhile trimmed = l)
    (l' : List Char) :
    clean (l ++ l') = clean l ++ cleanTail l' := by
  have hsuffix : (l.dropWhile trimmed).rdropWhile trimmed = l.dropWhile trimmed := by
    have hsplit := List.takeWhile_append_dropWhile (p := trimmed) (l := l)
    rw [← hsplit, rdropWhile_append] at hlast
    split_ifs at hlast with hnil
    · have hhead := List.head_dropWhile_not trimmed hdrop
      rw [List.rdropWhile_eq_nil_iff.mp hnil _ (List.head_mem hdrop)] at hhead
      cases hhead
    · exact List.append_cancel_left hlast
  rw [clean, clean, (span_append hdrop l').1, cleanTail, cleanTail, rdropWhile_append, hsuffix]
  split_ifs with hnil
  · rw [cleanTail, hnil, List.filter_nil, List.append_nil]
  · rw [List.filter_append, cleanTail]

theorem afterScheme_append {l : List Char} (h : afterScheme l ≠ []) (l' : List Char) :
    afterScheme (l ++ l') = afterScheme l ++ l' ∧ (l ++ l').takeWhile (· ≠ ':') = l.takeWhile (· ≠ ':') := by
  have hcolon : l.dropWhile (· ≠ ':') ≠ [] := by
    intro hnil
    rw [afterScheme, hnil] at h
    exact h rfl
  obtain ⟨hdrop, htake⟩ := span_append hcolon l'
  refine ⟨?_, htake⟩
  obtain ⟨c, rest, hrest⟩ := List.exists_cons_of_ne_nil hcolon
  rw [afterScheme, hrest] at h
  rw [afterScheme, afterScheme, hdrop, hrest]
  exact (span_append h l').1

theorem mem_of_mem_afterAuthority {c : Char} {l : List Char} (h : c ∈ afterAuthority l) : c ∈ l := by
  have hhier := (List.dropWhile_sublist _).subset ((List.dropWhile_sublist _).subset h)
  exact (List.dropWhile_sublist _).subset (List.mem_of_mem_drop hhier)

/-- A text with neither query nor fragment, and what goes on after it. -/
theorem partsOf_append {l l' : List Char} (hhier : afterScheme l ≠ [])
    (hplain : ∀ c ∈ l, endsPath c = false) (hl' : ∀ c ∈ l'.head?, endsAuthority c = true) :
    partsOf (l ++ l') = ⟨(partsOf l).scheme, (partsOf l).authority, (partsOf l).path ++ l'.takeWhile (!endsPath ·),
      queryOf (l'.dropWhile (!endsPath ·))⟩ := by
  have hpath : ∀ c ∈ afterAuthority l, (!endsPath c) = true := by
    intro c hc
    rw [hplain c (mem_of_mem_afterAuthority hc)]
    rfl
  have hends : ∀ c ∈ l'.head?, (!endsAuthority c) = false := by
    intro c hc
    rw [hl' c hc]
    rfl
  obtain ⟨happend, hscheme⟩ := afterScheme_append hhier l'
  obtain ⟨hdrop, htake⟩ := span_append_of_head hends (afterScheme l)
  have hafter : afterAuthority (l ++ l') = afterAuthority l ++ l' := by
    rw [afterAuthority, happend, hdrop, afterAuthority]
  have hself : (afterAuthority l).takeWhile (!endsPath ·) = afterAuthority l := List.takeWhile_eq_self_iff.mpr hpath
  rw [partsOf, partsOf, hafter, happend, hscheme, htake, List.takeWhile_append_of_pos hpath,
    List.dropWhile_append_of_pos hpath, hself]

theorem parts_append {l l' : List Char} (hhier : afterScheme (clean l) ≠ []) (hlast : l.rdropWhile trimmed = l)
    (hplain : ∀ c ∈ l, endsPath c = false) (hl' : ∀ c ∈ (cleanTail l').head?, endsAuthority c = true) :
    parts (l ++ l') = ⟨(parts l).scheme, (parts l).authority, (parts l).path ++ (cleanTail l').takeWhile (!endsPath ·),
      queryOf ((cleanTail l').dropWhile (!endsPath ·))⟩ := by
  have hdrop : l.dropWhile trimmed ≠ [] := by
    intro hnil
    rw [clean, hnil] at hhier
    exact hhier rfl
  have hsub : ∀ c ∈ clean l, endsPath c = false := fun c hc =>
    hplain c ((List.dropWhile_sublist _).subset ((cleanTail_sublist _).subset hc))
  rw [parts, clean_append hdrop hlast, partsOf_append hhier hsub hl', parts]

theorem afterScheme_ne_nil {l : List Char} (h : (partsOf l).authority ≠ []) : afterScheme l ≠ [] := by
  intro hnil
  rw [partsOf, hnil] at h
  exact h rfl

theorem afterScheme_of_slashes {l : List Char} {k : ℕ} (h : afterScheme (l ++ List.replicate k '/') ≠ []) :
    afterScheme l ≠ [] := by
  have hslash : ∀ c ∈ List.replicate k '/', c = '/' := fun c hc => List.eq_of_mem_replicate hc
  intro hnil
  refine h ?_
  rw [afterScheme, List.dropWhile_append]
  split_ifs with hcolon
  · have hnone : (List.replicate k '/').dropWhile (· ≠ ':') = [] := by
      refine List.dropWhile_eq_nil_iff.mpr fun c hc => ?_
      rw [hslash c hc]
      rfl
    rw [hnone]
    rfl
  · obtain ⟨c, rest, hrest⟩ := List.exists_cons_of_ne_nil (List.isEmpty_iff.not.mp hcolon)
    rw [afterScheme, hrest] at hnil
    rw [hrest]
    refine List.dropWhile_eq_nil_iff.mpr fun x hx => ?_
    rcases List.mem_append.mp hx with hx | hx
    · exact List.dropWhile_eq_nil_iff.mp hnil x hx
    · rw [hslash x hx]
      rfl

theorem Flavour.parse_eq_some {α : Type} {f : Flavour α} {l : List Char} {u : Record α} (h : f.parse l = some u) :
    (parts l).authority ≠ [] ∧ f.authority (parts l).scheme (parts l).authority = some u.authority ∧
      u.scheme = (parts l).scheme ∧ u.path =
        render (walk [] ((segments (parts l).path).map (encode (pathSet f.caret)))) ∧
      u.query = (parts l).query.map (encode querySet) := by
  rw [Flavour.parse] at h
  split_ifs at h with hscheme hauthority
  · cases h
  · obtain ⟨a, ha, rfl⟩ := Option.map_eq_some_iff.mp h
    exact ⟨hauthority, ha, rfl, rfl, rfl⟩

end Nexal.Url
