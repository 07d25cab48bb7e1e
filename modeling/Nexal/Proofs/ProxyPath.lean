import Nexal.Sanity.ReverseProxy

/-! The URL that the reverse proxy requests. What follows the token is decoded, put after the base and
parsed again, so that escapes that stand for more than their character do not come through. -/

namespace Nexal.ReverseProxy

open Gateway (ProxyRegistry ProxyEntry)
open Percent (percentDecode percentDecode_spec percentDecode_encode percentDecode_ne_nil encode encode_ne_nil
  mem_of_slash_mem_encode)
open Utf8 (bytes bytes_injective eq_of_sublist_of_bytes bytes_sublist_le)
open Url

variable {α : Type}

/-- The path of the base without its trailing slashes, and what follows the token. -/
def expectedPath (base : Url.Record α) (after : List Char) : List Char :=
  if base.path.rdropWhile (· = '/') ++ after = [] then ['/'] else base.path.rdropWhile (· = '/') ++ after

structure Transparent (base : Url.Record α) (after : List Char) (query : Option String) (sent : Outgoing α) : Prop where
  scheme : sent.url.scheme = base.scheme
  authority : sent.url.authority = base.authority
  path : sent.url.path = expectedPath base after
  query : sent.url.query = query.map String.toList

/-- What is left of the base when the slashes at its end are taken away. -/
def trimBase (upstream : List Char) : List Char := upstream.rdropWhile (· = '/')

/-- A base that a path can be appended to: neither query nor fragment, no space or control at the end, and
the last segment is a name. -/
structure PlainBase (caret : Bool) (upstream : List Char) : Prop where
  ends : (trimBase upstream).rdropWhile trimmed = trimBase upstream
  chars : ∀ c ∈ trimBase upstream, endsPath c = false
  last : ∀ seg ∈ (entries (parts (trimBase upstream)).path).getLast?, seg ≠ [] ∧
    isDot (encode (pathSet caret) seg) = false

/-- What follows the token is escaped as the URL parser escapes it, and decoded it has no character that the
parser takes for more than itself; the query has none that it escapes. -/
structure Canonical (caret : Bool) (raw decoded : List Char) (query : Option String) : Prop where
  escapes : encode (pathSet caret) decoded = raw
  chars : ∀ c ∈ decoded, endsPath c = false ∧ removed c = false
  backslash : '\\' ∉ decoded
  start : decoded.head? ≠ some '/'
  dots : ∀ seg ∈ (decoded.splitOnP isSlash).map (encode (pathSet caret)), isDot seg = false
  ends : query = none → decoded.rdropWhile trimmed = decoded
  query : ∀ q ∈ query, ∀ c ∈ q.toList, querySet c = false

/-! The base -/

def entered (caret : Bool) (upstream : List Char) : List (List Char) :=
  ((entries (parts (trimBase upstream)).path).map (encode (pathSet caret))).foldl enter []

theorem upstream_eq (upstream : List Char) : ∃ k, upstream = trimBase upstream ++ List.replicate k '/' := by
  refine ⟨(upstream.rtakeWhile (· = '/')).length, ?_⟩
  have hslash : upstream.rtakeWhile (· = '/') = List.replicate (upstream.rtakeWhile (· = '/')).length '/' :=
    List.eq_replicate_iff.mpr ⟨rfl, fun c hc => by simpa using List.mem_rtakeWhile_imp hc⟩
  exact List.rdropWhile_append_rtakeWhile.symm.trans (congrArg (trimBase upstream ++ ·) hslash)

theorem cleanTail_slashes (k : ℕ) : cleanTail (List.replicate k '/') = List.replicate k '/' := by
  induction k with
  | zero => rfl
  | succ k ih => rw [List.replicate_succ, cleanTail_cons rfl rfl, ih]

section Base

variable {f : Flavour α} {upstream : List Char} {base : Url.Record α}

theorem PlainBase.afterScheme_ne_nil (h : PlainBase f.caret upstream) (hbase : f.parse upstream = some base) :
    afterScheme (clean (trimBase upstream)) ≠ [] := by
  obtain ⟨k, hk⟩ := upstream_eq upstream
  have hafter := Url.afterScheme_ne_nil (Flavour.parse_eq_some hbase).1
  by_cases hdrop : (trimBase upstream).dropWhile trimmed = []
  · -- there is nothing but slashes
    have hnil : trimBase upstream = [] := by
      rw [← h.ends]
      exact List.rdropWhile_eq_nil_iff.mpr (List.dropWhile_eq_nil_iff.mp hdrop)
    rw [hnil, List.nil_append] at hk
    have hclean : clean upstream = [] ++ List.replicate k '/' := by
      rw [hk]
      cases k with
      | zero => rfl
      | succ k => exact cleanTail_slashes (k + 1)
    rw [hclean] at hafter
    exact absurd rfl (afterScheme_of_slashes hafter)
  · rw [hk, clean_append hdrop h.ends, cleanTail_slashes] at hafter
    exact afterScheme_of_slashes hafter

theorem PlainBase.parts_base (h : PlainBase f.caret upstream) (hbase : f.parse upstream = some base) :
    ∃ k, parts upstream = ⟨(parts (trimBase upstream)).scheme, (parts (trimBase upstream)).authority,
      (parts (trimBase upstream)).path ++ List.replicate k '/', none⟩ := by
  obtain ⟨k, hk⟩ := upstream_eq upstream
  have hslash : ∀ c ∈ List.replicate k '/', (!endsPath c) = true := by
    intro c hc
    rw [List.eq_of_mem_replicate hc]
    rfl
  refine ⟨k, ?_⟩
  conv_lhs => rw [hk]
  rw [parts_append (h.afterScheme_ne_nil hbase) h.ends h.chars, cleanTail_slashes]
  · rw [List.takeWhile_eq_self_iff.mpr hslash, List.dropWhile_eq_nil_iff.mpr hslash]
    rfl
  · intro c hc
    rw [cleanTail_slashes] at hc
    rw [List.eq_of_mem_replicate (List.mem_of_mem_head? hc)]
    rfl

theorem walk_base (h : PlainBase f.caret upstream) (hpath : (parts (trimBase upstream)).path ≠ []) :
    walk [] ((segments (parts (trimBase upstream)).path).map (encode (pathSet f.caret))) = entered f.caret upstream ∧
      ∃ path seg, entered f.caret upstream = path ++ [encode (pathSet f.caret) seg] ∧ seg ≠ [] ∧ ∀ c ∈ seg,
        isSlash c = false := by
  obtain ⟨c, rest, hrest⟩ := List.exists_cons_of_ne_nil hpath
  have hsegments : segments (parts (trimBase upstream)).path = entries (parts (trimBase upstream)).path := by
    rw [hrest]
    rfl
  have hne : entries (parts (trimBase upstream)).path ≠ [] := by
    rw [hrest]
    exact List.splitOnP_ne_nil isSlash rest
  obtain ⟨init, seg, hentries⟩ := (List.eq_nil_or_concat' _).resolve_left hne
  obtain ⟨hseg, hdot⟩ := h.last seg (by rw [hentries, List.getLast?_concat]; rfl)
  have hmem : seg ∈ rest.splitOnP isSlash := by
    have hconcat : seg ∈ entries (parts (trimBase upstream)).path :=
      hentries ▸ List.mem_append_right init List.mem_cons_self
    rwa [hrest] at hconcat
  have hentered : entered f.caret upstream =
      (init.map (encode (pathSet f.caret))).foldl enter [] ++ [encode (pathSet f.caret) seg] := by
    rw [entered, hentries, List.map_append, List.foldl_append, List.map_singleton, List.foldl_cons, List.foldl_nil,
      enter_of_not hdot]
  refine ⟨?_, _, seg, hentered, hseg, not_slash_of_mem_split hmem⟩
  rw [hsegments, hentries, List.map_append, List.map_singleton, walk_append (List.cons_ne_nil _ _), hentered]
  exact if_neg (Bool.eq_false_iff.mp hdot)

theorem entered_nil (hpath : (parts (trimBase upstream)).path = []) : entered f.caret upstream = [] := by
  rw [entered, hpath]
  rfl

theorem split_slashes (k : ℕ) : (List.replicate k '/').splitOnP isSlash = List.replicate (k + 1) [] := by
  have hslash : isSlash '/' = true := rfl
  induction k with
  | zero => rfl
  | succ k ih =>
    rw [List.replicate_succ, List.splitOnP_cons_eq_if_modifyHead, if_pos hslash, ih]
    rfl

theorem walk_slashes (h : PlainBase f.caret upstream) (k : ℕ) :
    ∃ j, render (walk [] ((segments ((parts (trimBase upstream)).path ++ List.replicate k '/')).map
      (encode (pathSet f.caret)))) = render (entered f.caret upstream) ++ List.replicate j '/' := by
  cases k with
  | zero =>
    rw [List.replicate_zero, List.append_nil]
    by_cases hpath : (parts (trimBase upstream)).path = []
    · refine ⟨1, ?_⟩
      rw [entered_nil hpath, hpath]
      rfl
    · refine ⟨0, ?_⟩
      rw [(walk_base h hpath).1, List.replicate_zero, List.append_nil]
  | succ k =>
    have hempty : (List.replicate (k + 1) []).map (encode (pathSet f.caret)) = List.replicate (k + 1) [] := by
      rw [List.map_replicate]
      rfl
    have hdots : ∀ seg ∈ List.replicate (k + 1) [], isDot seg = false := by
      intro seg hseg
      rw [List.eq_of_mem_replicate hseg]
      rfl
    have hne : List.replicate (k + 1) ([] : List Char) ≠ [] := List.cons_ne_nil _ _
    refine ⟨k + 1, ?_⟩
    have hrender : render (entered f.caret upstream) ++ List.replicate (k + 1) '/' =
        render (entered f.caret upstream ++ List.replicate (k + 1) []) := by rw [render_append, render_replicate]
    rw [hrender, List.replicate_succ (n := k), segments_append rfl, split_slashes, List.map_append, hempty, walk_append hne,
      walk_of_not hdots]
    rfl

theorem render_entered (h : PlainBase f.caret upstream) (j : ℕ) :
    (render (entered f.caret upstream) ++ List.replicate j '/').rdropWhile (· = '/') =
      render (entered f.caret upstream) := by
  have hslashes : (List.replicate j '/').rdropWhile (· = '/') = [] := by
    refine List.rdropWhile_eq_nil_iff.mpr fun c hc => ?_
    rw [List.eq_of_mem_replicate hc]
    rfl
  rw [rdropWhile_append, if_pos hslashes]
  by_cases hpath : (parts (trimBase upstream)).path = []
  · rw [entered_nil hpath]
    rfl
  · obtain ⟨-, path, seg, hentered, hne, hseg⟩ := walk_base h hpath
    have hlast : (encode (pathSet f.caret) seg).rdropWhile (· = '/') = encode (pathSet f.caret) seg := by
      refine List.rdropWhile_eq_self_iff.mpr fun hnil hslash => ?_
      have hmem := List.getLast_mem hnil
      rw [of_decide_eq_true hslash] at hmem
      have := hseg '/' (mem_of_slash_mem_encode hmem)
      cases this
    have hnil : encode (pathSet f.caret) seg ≠ [] := encode_ne_nil hne
    have hrender : render (entered f.caret upstream) = (render path ++ ['/']) ++ encode (pathSet f.caret) seg := by
      rw [hentered, render_append, render_cons, List.append_assoc]
      exact congrArg (render path ++ '/' :: ·) (List.append_nil _)
    rw [hrender, rdropWhile_append, hlast, if_neg hnil]

/-- The path of the base, without its trailing slashes, is that of the segments that the request's come after. -/
theorem base_path (h : PlainBase f.caret upstream) (hbase : f.parse upstream = some base) :
    base.path.rdropWhile (· = '/') = render (entered f.caret upstream) := by
  obtain ⟨k, hparts⟩ := h.parts_base hbase
  obtain ⟨-, -, -, hpath, -⟩ := Flavour.parse_eq_some hbase
  rw [hparts] at hpath
  obtain ⟨j, hj⟩ := walk_slashes h k
  rw [hpath, hj, render_entered h]

end Base

/-! What is put after the base -/

def pathText (rest : List Char) : List Char :=
  if rest = [] then [] else if rest.head? = some '/' then rest else '/' :: rest

def queryText : Option (List Char) → List Char
  | some query => '?' :: query
  | none => []

theorem target_eq {upstream rest target : String} {uri : Uri} (h : buildUpstreamUrl upstream rest uri = .ok target) :
    target.toList = trimBase upstream.toList ++ (pathText rest.toList ++ queryText (uri.query.map String.toList)) := by
  have hpath : (if rest = "" then "" else if rest.toList.head? = some '/' then rest else "/" ++ rest).toList =
      pathText rest.toList := by
    by_cases hempty : rest = ""
    · rw [hempty]
      rfl
    · have hne : rest.toList ≠ [] := fun hnil => hempty (String.toList_eq_nil_iff.mp hnil)
      rw [if_neg hempty, pathText, if_neg hne]
      split_ifs
      · rfl
      · rw [String.toList_append]
        rfl
  unfold buildUpstreamUrl at h
  cases Except.ok.inj h
  cases uri.query with
  | none =>
    simp only [String.toList_append, String.toList_ofList, hpath]
    exact (List.append_assoc _ _ _).symm.trans (List.append_nil _) |>.symm
  | some q =>
    simp only [String.toList_append, String.toList_ofList, hpath, List.append_assoc]
    rfl

def readPath (rest : List Char) (query : Option (List Char)) : List Char :=
  (cleanTail (pathText rest ++ queryText query)).takeWhile (!endsPath ·)

theorem pathText_cons {rest : List Char} (h : rest ≠ []) : ∃ p, pathText rest = '/' :: p ∧ p.Sublist rest := by
  unfold pathText
  rw [if_neg h]
  split_ifs with hhead
  · obtain ⟨c, p, rfl⟩ := List.exists_cons_of_ne_nil h
    cases hhead
    exact ⟨p, rfl, List.sublist_cons_self _ _⟩
  · exact ⟨rest, rfl, List.Sublist.refl rest⟩

theorem readPath_none (rest : List Char) : readPath rest none = (cleanTail (pathText rest)).takeWhile (!endsPath ·) := by
  rw [readPath, queryText, List.append_nil]

theorem readPath_some (rest query : List Char) :
    readPath rest (some query) = ((pathText rest).filter (!removed ·)).takeWhile (!endsPath ·) := by
  rw [readPath, queryText, cleanTail_append_cons rfl rfl]
  exact (span_append_of_head (fun c hc => by cases hc; rfl) _).2

theorem readPath_sublist (rest : List Char) (query : Option (List Char)) :
    (readPath rest query).Sublist (pathText rest) := by
  cases query with
  | none =>
    rw [readPath_none]
    exact (List.takeWhile_sublist _).trans (cleanTail_sublist _)
  | some q =>
    rw [readPath_some]
    exact (List.takeWhile_sublist _).trans List.filter_sublist

theorem takeWhile_filter_eq {p q : Char → Bool} {l : List Char} :
    (l.filter q).takeWhile p = l ↔ ∀ c ∈ l, p c = true ∧ q c = true := by
  constructor
  · intro h c hc
    rw [← h] at hc
    exact ⟨List.mem_takeWhile_imp hc, (List.mem_filter.mp ((List.takeWhile_sublist p).subset hc)).2⟩
  · intro h
    rw [List.filter_eq_self.mpr fun c hc => (h c hc).2, List.takeWhile_eq_self_iff.mpr fun c hc => (h c hc).1]

/-- All of the path is read when it has no character that is left out or ends it. -/
theorem readPath_eq {rest : List Char} {query : Option (List Char)} : readPath rest query = pathText rest ↔
    (∀ c ∈ pathText rest, endsPath c = false ∧ removed c = false) ∧
      (query = none → (pathText rest).rdropWhile trimmed = pathText rest) := by
  have hbool : (∀ c ∈ pathText rest, endsPath c = false ∧ removed c = false) ↔
      ∀ c ∈ pathText rest, (!endsPath c) = true ∧ (!removed c) = true := by simp
  rw [hbool]
  cases query with
  | some q =>
    rw [readPath_some, takeWhile_filter_eq]
    exact ⟨fun h => ⟨h, nofun⟩, fun h => h.1⟩
  | none =>
    rw [readPath_none, cleanTail]
    constructor
    · intro h
      have hsub : ((((pathText rest).rdropWhile trimmed).filter (!removed ·)).takeWhile (!endsPath ·)).Sublist
          ((pathText rest).rdropWhile trimmed) := (List.takeWhile_sublist _).trans List.filter_sublist
      rw [h] at hsub
      have hends := (List.rdropWhile_prefix trimmed (pathText rest)).sublist.antisymm hsub
      rw [hends] at h
      exact ⟨takeWhile_filter_eq.mp h, fun _ => hends⟩
    · rintro ⟨h, hends⟩
      rw [hends rfl]
      exact takeWhile_filter_eq.mpr h

section Target

variable {f : Flavour α} {upstream rest : List Char} {query : Option (List Char)} {base url : Url.Record α}

theorem head_cleanTail (rest : List Char) (query : Option (List Char)) :
    ∀ c ∈ (cleanTail (pathText rest ++ queryText query)).head?, endsAuthority c = true := by
  intro c hc
  by_cases hrest : rest = []
  · subst hrest
    cases query with
    | none => cases hc
    | some q =>
      rw [queryText, cleanTail_append_cons rfl rfl] at hc
      cases hc
      rfl
  · obtain ⟨p, hp, -⟩ := pathText_cons hrest
    rw [hp, List.cons_append, cleanTail_cons rfl rfl] at hc
    cases hc
    rfl

/-- The URL that is requested: the base with the path and the query that the parser reads. -/
theorem target_spec (h : PlainBase f.caret upstream) (hbase : f.parse upstream = some base)
    (hurl : f.parse (trimBase upstream ++ (pathText rest ++ queryText query)) = some url) :
    url.scheme = base.scheme ∧ url.authority = base.authority ∧
      url.path = render (walk [] ((segments ((parts (trimBase upstream)).path ++ readPath rest query)).map
        (encode (pathSet f.caret)))) ∧
      url.query = (queryOf ((cleanTail (pathText rest ++ queryText query)).dropWhile (!endsPath ·))).map
        (encode querySet) := by
  obtain ⟨k, hparts⟩ := h.parts_base hbase
  obtain ⟨-, hauthority, hscheme, -⟩ := Flavour.parse_eq_some hbase
  obtain ⟨-, hauthority', hscheme', hpath, hquery⟩ := Flavour.parse_eq_some hurl
  rw [parts_append (h.afterScheme_ne_nil hbase) h.ends h.chars (head_cleanTail rest query)]
    at hauthority' hscheme' hpath hquery
  rw [hparts] at hauthority hscheme
  exact ⟨hscheme'.trans hscheme.symm, Option.some.inj (hauthority'.symm.trans hauthority), hpath, hquery⟩

/-- Without anything after the token the path is that of the base. -/
theorem path_root (h : PlainBase f.caret upstream) (hbase : f.parse upstream = some base)
    (hurl : f.parse (trimBase upstream ++ (pathText [] ++ queryText query)) = some url) :
    url.path = expectedPath base [] := by
  have hread : readPath [] query = [] := List.sublist_nil.mp (readPath_sublist [] query)
  obtain ⟨-, -, hpath, -⟩ := target_spec h hbase hurl
  rw [hpath, hread, List.append_nil, expectedPath, base_path h hbase, List.append_nil]
  by_cases hnil : (parts (trimBase upstream)).path = []
  · rw [entered_nil hnil, hnil, if_pos (show render [] = [] from rfl)]
    rfl
  · obtain ⟨hwalk, path, seg, hentered, -⟩ := walk_base h hnil
    have hne : render (entered f.caret upstream) ≠ [] := by
      rw [hentered, render_append, render_cons]
      exact List.append_ne_nil_of_right_ne_nil _ (List.cons_ne_nil _ _)
    rw [hwalk, if_neg hne]

theorem readPath_cons (hrest : rest ≠ []) (query : Option (List Char)) :
    ∃ e p, readPath rest query = '/' :: e ∧ pathText rest = '/' :: p ∧ e.Sublist p ∧ p.Sublist rest := by
  obtain ⟨p, hp, hsub⟩ := pathText_cons hrest
  have hread := readPath_sublist rest query
  have hcons : ∃ e, readPath rest query = '/' :: e := by
    rw [readPath, hp, List.cons_append, cleanTail_cons rfl rfl]
    exact ⟨_, rfl⟩
  obtain ⟨e, he⟩ := hcons
  rw [he, hp] at hread
  exact ⟨e, p, he, hp, List.cons_sublist_cons.mp hread, hsub⟩

theorem pathText_of_start (hrest : rest ≠ []) : pathText rest = '/' :: rest ↔ rest.head? ≠ some '/' := by
  rw [pathText, if_neg hrest]
  split_ifs with hhead
  · refine iff_of_false (fun heq => ?_) (not_not.mpr hhead)
    have hlength := congrArg List.length heq
    rw [List.length_cons] at hlength
    omega
  · exact iff_of_true rfl hhead

theorem readPath_eq_cons (hrest : rest ≠ []) : readPath rest query = '/' :: rest ↔
    (∀ c ∈ rest, endsPath c = false ∧ removed c = false) ∧ rest.head? ≠ some '/' ∧
      (query = none → rest.rdropWhile trimmed = rest) := by
  have hslash : ∀ l : List Char, ('/' :: l).rdropWhile trimmed = '/' :: l ↔ l.rdropWhile trimmed = l := by
    intro l
    rw [rdropWhile_cons_of_not rfl, List.cons.injEq, eq_self, true_and]
  constructor
  · intro heq
    obtain ⟨e, p, he, hp, hep, hpr⟩ := readPath_cons hrest query
    obtain rfl := (List.cons.inj (he.symm.trans heq)).2
    obtain rfl := hep.antisymm hpr
    obtain ⟨hchars, hends⟩ := readPath_eq.mp (heq.trans hp.symm)
    rw [hp] at hchars hends
    exact ⟨(List.forall_mem_cons.mp hchars).2, (pathText_of_start hrest).mp hp, fun hq => (hslash _).mp (hends hq)⟩
  · rintro ⟨hchars, hstart, hends⟩
    have hp := (pathText_of_start hrest).mpr hstart
    rw [← hp]
    refine readPath_eq.mpr ⟨?_, fun hq => ?_⟩
    · rw [hp]
      exact List.forall_mem_cons.mpr ⟨⟨rfl, rfl⟩, hchars⟩
    · rw [hp]
      exact (hslash rest).mpr (hends hq)

/-- The segments of the request come after those of the base. -/
theorem path_eq (h : PlainBase f.caret upstream) (hbase : f.parse upstream = some base)
    (hurl : f.parse (trimBase upstream ++ (pathText rest ++ queryText query)) = some url) {e : List Char}
    (he : readPath rest query = '/' :: e) :
    url.path = render (walk (entered f.caret upstream) ((e.splitOnP isSlash).map (encode (pathSet f.caret)))) := by
  obtain ⟨-, -, hpath, -⟩ := target_spec h hbase hurl
  have hne : (e.splitOnP isSlash).map (encode (pathSet f.caret)) ≠ [] := by
    rw [ne_eq, List.map_eq_nil_iff]
    exact List.splitOnP_ne_nil isSlash e
  rw [hpath, he, segments_append rfl, List.map_append, walk_append hne, entered]

theorem expectedPath_cons (h : PlainBase f.caret upstream) (hbase : f.parse upstream = some base) (raw : List Char) :
    expectedPath base ('/' :: raw) = render (entered f.caret upstream) ++ '/' :: raw := by
  rw [expectedPath, base_path h hbase, if_neg (List.append_ne_nil_of_right_ne_nil _ (List.cons_ne_nil _ _))]

/-- A path that comes through has lost no byte on its way. -/
theorem path_rest (h : PlainBase f.caret upstream) (hbase : f.parse upstream = some base)
    (hurl : f.parse (trimBase upstream ++ (pathText rest ++ queryText query)) = some url) (hrest : rest ≠ [])
    {raw : List Char} (hraw : percentDecode raw = bytes rest) (hpath : url.path = expectedPath base ('/' :: raw)) :
    readPath rest query = '/' :: rest ∧ encode (pathSet f.caret) rest = raw ∧ '\\' ∉ rest ∧
      ∀ seg ∈ (rest.splitOnP isSlash).map (encode (pathSet f.caret)), isDot seg = false := by
  obtain ⟨e, p, he, hp, hep, hpr⟩ := readPath_cons hrest query
  rw [path_eq h hbase hurl he, expectedPath_cons h hbase] at hpath
  have hsplit := render_split (pathSet_slash f.caret) e
  -- the bytes on both sides, decoded
  have hweight := congrArg (fun l => (percentDecode l).length) hpath
  rw [length_percentDecode_render, Percent.percentDecode_append (by decide), List.length_append,
    length_percentDecode_render, length_percentDecode_slash, hraw] at hweight
  have hsegments := length_percentDecode_render ((e.splitOnP isSlash).map (encode (pathSet f.caret)))
  rw [hsplit, length_percentDecode_slash, percentDecode_encode (keepsEscapes_pathSet f.caret)] at hsegments
  obtain ⟨hwalk, hdots⟩ := weight_walk (entered f.caret upstream) ((e.splitOnP isSlash).map (encode (pathSet f.caret)))
  obtain ⟨hdecode, hplain⟩ := percentDecode_spec (slashes e)
  have hslashes := length_bytes_slashes e
  have hread := bytes_sublist_le hep
  have htext := bytes_sublist_le hpr
  obtain rfl : e = rest := eq_of_sublist_of_bytes (hep.trans hpr) (by omega)
  have hdots := hdots (by omega)
  rw [walk_of_not hdots, render_append, hsplit] at hpath
  have hencode : encode (pathSet f.caret) (slashes e) = raw := (List.cons.inj (List.append_cancel_left hpath)).2
  have hself : slashes e = e := by
    refine bytes_injective ?_
    rw [← hraw, ← hencode, percentDecode_encode (keepsEscapes_pathSet f.caret), hplain (by omega)]
  rw [hself] at hencode
  exact ⟨he, hencode, hself ▸ not_mem_slashes e, hdots⟩

theorem path_of_rest (h : PlainBase f.caret upstream) (hbase : f.parse upstream = some base)
    (hurl : f.parse (trimBase upstream ++ (pathText rest ++ queryText query)) = some url) {raw : List Char}
    (hread : readPath rest query = '/' :: rest) (hencode : encode (pathSet f.caret) rest = raw) (hslash : '\\' ∉ rest)
    (hdots : ∀ seg ∈ (rest.splitOnP isSlash).map (encode (pathSet f.caret)), isDot seg = false) :
    url.path = expectedPath base ('/' :: raw) := by
  rw [path_eq h hbase hurl hread, expectedPath_cons h hbase, walk_of_not hdots, render_append,
    render_split (pathSet_slash f.caret), slashes_eq_self hslash, hencode]

end Target

/-! The query -/

theorem queryOf_read {rest : List Char} (hchars : ∀ c ∈ pathText rest, endsPath c = false) (query : Option (List Char)) :
    queryOf ((cleanTail (pathText rest ++ queryText query)).dropWhile (!endsPath ·)) =
      query.map fun q => (cleanTail q).takeWhile (· ≠ '#') := by
  have hnil : ∀ l : List Char, l.Sublist (pathText rest) → l.dropWhile (!endsPath ·) = [] := by
    intro l hl
    refine List.dropWhile_eq_nil_iff.mpr fun c hc => ?_
    rw [hchars c (hl.subset hc)]
    rfl
  cases query with
  | none =>
    rw [queryText, List.append_nil, hnil _ (cleanTail_sublist _)]
    rfl
  | some q =>
    rw [queryText, cleanTail_append_cons rfl rfl, (span_append_of_head (fun c hc => by cases hc; rfl) _).1,
      hnil _ List.filter_sublist]
    rfl

theorem querySet_of_trimmed {c : Char} (h : trimmed c = true) : querySet c = true := by
  have hle : c.toNat ≤ 0x20 := of_decide_eq_true h
  by_cases hspace : c.toNat = 0x20
  · rw [querySet, hspace]
    exact Bool.or_true _
  · have hc0 : c0Set c = true := Bool.or_eq_true_iff.mpr (Or.inl (decide_eq_true (by omega)))
    rw [querySet, hc0]
    rfl

theorem querySet_of_removed {c : Char} (h : removed c = true) : querySet c = true := by
  have hcases : (c = '\t' ∨ c = '\n') ∨ c = '\r' := by simpa [removed] using h
  rcases hcases with (rfl | rfl) | rfl
  · rfl
  · rfl
  · rfl

/-- A query comes through when the parser escapes nothing in it. -/
theorem query_eq {q : List Char} : encode querySet ((cleanTail q).takeWhile (· ≠ '#')) = q ↔
    ∀ c ∈ q, querySet c = false := by
  constructor
  · intro h c hc
    rw [← h] at hc
    exact mem_encode_querySet hc
  · intro h
    have hends : q.rdropWhile trimmed = q := by
      refine List.rdropWhile_eq_self_iff.mpr fun hne htrimmed => ?_
      have := h _ (List.getLast_mem hne)
      rw [querySet_of_trimmed htrimmed] at this
      cases this
    have hkept : ∀ c ∈ q, (!removed c) = true := by
      intro c hc
      cases hremoved : removed c with
      | false => rfl
      | true =>
        have := h c hc
        rw [querySet_of_removed hremoved] at this
        cases this
    have hhash : ∀ c ∈ q, decide (c ≠ '#') = true := by
      rintro c hc
      refine decide_eq_true ?_
      rintro rfl
      have := h '#' hc
      cases this
    rw [cleanTail, hends, List.filter_eq_self.mpr hkept, List.takeWhile_eq_self_iff.mpr hhash, Percent.encode_eq_self h]

/-! The request -/

/-- What follows the token is canonical, if it is UTF-8 at all. -/
def CanonicalRequest (caret : Bool) (after : List Char) (query : Option String) : Prop :=
  ∀ rest, Utf8.fromUtf8 (percentDecode (after.drop 1)) = some rest → Canonical caret (after.drop 1) rest.toList query

section Request

variable {f : Flavour α} {upstream : List Char} {base url : Url.Record α} {rest : List Char} {query : Option String}

theorem query_iff (h : PlainBase f.caret upstream) (hbase : f.parse upstream = some base)
    (hurl : f.parse (trimBase upstream ++ (pathText rest ++ queryText (query.map String.toList))) = some url)
    (hchars : ∀ c ∈ pathText rest, endsPath c = false) :
    url.query = query.map String.toList ↔ ∀ q ∈ query, ∀ c ∈ q.toList, querySet c = false := by
  obtain ⟨-, -, -, hquery⟩ := target_spec h hbase hurl
  rw [hquery, queryOf_read hchars]
  cases query with
  | none => simp
  | some q =>
    simp only [Option.map_some, Option.some.injEq, Option.mem_def, forall_eq']
    exact query_eq

theorem chars_pathText {rest : List Char} (h : ∀ c ∈ rest, endsPath c = false ∧ removed c = false) :
    ∀ c ∈ pathText rest, endsPath c = false := by
  intro c hc
  unfold pathText at hc
  split_ifs at hc
  · cases hc
  · exact (h c hc).1
  · rcases List.mem_cons.mp hc with rfl | hc
    · rfl
    · exact (h c hc).1

end Request

/-- Over a plain base the requests that come through as the caller wrote them are the canonical ones. -/
theorem transparent_iff_canonical (c : Client α) (registry : ProxyRegistry)
    (answer : Outgoing α → Except String Response)
    {req : Request} {token after : List Char} {key : String} {entry : ProxyEntry} {base : Url.Record α} {sent : Outgoing α}
    (hroute : route req.uri.path.toList = some (token, after)) (hkey : Utf8.fromUtf8 (percentDecode token) = some key)
    (hentry : registry.lookup key = some entry) (hbase : c.url.parse entry.upstreamUrl.toList = some base)
    (hplain : PlainBase c.url.caret entry.upstreamUrl.toList) (hsent : (serve c registry answer req).1 = some sent) :
    Transparent base after req.uri.query sent ↔ CanonicalRequest c.url.caret after req.uri.query := by
  obtain ⟨rest, hrest, hforward⟩ := serve_sent hroute hkey hsent
  obtain ⟨target, body, r, htarget, -, hprepare, rfl⟩ := forward_sent hentry hforward
  obtain ⟨-, -, hurl, -⟩ := prepare_ok hprepare
  rw [target_eq htarget] at hurl
  have hbytes : bytes rest.toList = percentDecode (after.drop 1) := Utf8.fromUtf8_eq_some.mp hrest
  have hcanonical : CanonicalRequest c.url.caret after req.uri.query ↔
      Canonical c.url.caret (after.drop 1) rest.toList req.uri.query := by
    refine ⟨fun h => h rest hrest, fun h rest' hrest' => ?_⟩
    rw [← Option.some.inj (hrest.symm.trans hrest')]
    exact h
  obtain ⟨hscheme, hauthority, -, -⟩ := target_spec hplain hbase hurl
  rw [hcanonical]
  rcases route_after hroute with rfl | ⟨raw, hraw, rfl⟩
  · have hnil : rest.toList = [] := Utf8.bytes_injective hbytes
    rw [hnil] at hurl ⊢
    have hquery := query_iff hplain hbase hurl (by simp [pathText])
    constructor
    · intro h
      exact ⟨rfl, by simp, by simp, by simp,
        by simp [List.splitOnP_nil, encode, isDot, singleDot, doubleDot], fun _ => rfl, hquery.mp h.query⟩
    · intro h
      exact ⟨hscheme, hauthority, path_root hplain hbase hurl, hquery.mpr h.query⟩
  · have hne : rest.toList ≠ [] := by
      intro hnil
      rw [hnil] at hbytes
      exact percentDecode_ne_nil hraw hbytes.symm
    constructor
    · intro h
      obtain ⟨hread, hencode, hslash, hdots⟩ := path_rest hplain hbase hurl hne hbytes.symm h.path
      obtain ⟨hchars, hstart, hends⟩ := (readPath_eq_cons hne).mp hread
      have hquery := query_iff hplain hbase hurl (chars_pathText hchars)
      exact ⟨hencode, hchars, hslash, hstart, hdots, fun hnone => hends (by rw [hnone]; rfl), hquery.mp h.query⟩
    · intro h
      have hends : req.uri.query.map String.toList = none → rest.toList.rdropWhile trimmed = rest.toList :=
        fun hnone => h.ends (Option.map_eq_none_iff.mp hnone)
      have hread := (readPath_eq_cons hne).mpr ⟨h.chars, h.start, hends⟩
      have hquery := query_iff hplain hbase hurl (chars_pathText h.chars)
      exact ⟨hscheme, hauthority, path_of_rest hplain hbase hurl hread h.escapes h.backslash h.dots, hquery.mpr h.query⟩

def tenantRequest (path : String) (query : Option String) : Request := ⟨"GET", ⟨path, query⟩, [], .ok []⟩

theorem transparent_iff_canonical_plain : ∃ base sent,
    lowerCase.url.parse "https://h/v1/tenant/".toList = some base ∧
    (serve lowerCase (oneProxy "https://h/v1/tenant/" []) (fun _ => .error "timeout")
      (tenantRequest "/p/tok/a%20b" (some "q=1"))).1 = some sent ∧
    (Transparent base "/a%20b".toList (some "q=1") sent ↔ CanonicalRequest false "/a%20b".toList (some "q=1")) := by
  obtain ⟨base, hbase⟩ : ∃ base, lowerCase.url.parse "https://h/v1/tenant/".toList = some base := ⟨_, rfl⟩
  obtain ⟨sent, hsent⟩ : ∃ sent, (serve lowerCase (oneProxy "https://h/v1/tenant/" []) (fun _ => .error "timeout")
      (tenantRequest "/p/tok/a%20b" (some "q=1"))).1 = some sent := ⟨_, rfl⟩
  have hchars : (trimBase "https://h/v1/tenant/".toList).all (!endsPath ·) = true := by decide
  have hplain : PlainBase false "https://h/v1/tenant/".toList :=
    ⟨by decide, fun c hc => (Bool.not_eq_true' _).mp (List.all_eq_true.mp hchars c hc), by decide⟩
  have hroute : route "/p/tok/a%20b".toList = some ("tok".toList, "/a%20b".toList) := by decide
  have hkey : Utf8.fromUtf8 (percentDecode "tok".toList) = some "tok" := by decide
  have hentry : (oneProxy "https://h/v1/tenant/" []).lookup "tok" =
    some ⟨"agent", "jina", "https://h/v1/tenant/", [], "tok"⟩ := rfl
  exact ⟨base, sent, hbase, hsent, transparent_iff_canonical lowerCase _ _ hroute hkey hentry hbase hplain hsent⟩

/-- Over the tenant's base, what follows the token is requested with this path and query and not as it was written. -/
def Misread (after path : String) (query : Option String) : Prop :=
  ∃ base sent, lowerCase.url.parse "https://h/v1/tenant/".toList = some base ∧
    (serve lowerCase (oneProxy "https://h/v1/tenant/" []) (fun _ => .error "timeout")
      (tenantRequest ("/p/tok" ++ after) none)).1 = some sent ∧
    sent.url.path = path.toList ∧ sent.url.query = query.map String.toList ∧ ¬ Transparent base after.toList none sent

/-- Escaped dots leave the base, an escaped slash becomes one, and an escaped question mark starts a query. -/
theorem escapes_not_transparent : Misread "/%2e%2e/admin" "/v1/admin" none ∧ Misread "/a%2Fb" "/v1/tenant/a/b" none ∧
    Misread "/a%3Fb" "/v1/tenant/a" (some "b") := by
  have hpath : ∀ {base : Url.Record (List Char)} {after : List Char} {query : Option String} {sent : Outgoing (List Char)},
      sent.url.path ≠ expectedPath base after → ¬ Transparent base after query sent := fun h ht => h ht.path
  refine ⟨?_, ?_, ?_⟩
  · exact ⟨_, _, rfl, rfl, rfl, rfl, hpath (by decide)⟩
  · exact ⟨_, _, rfl, rfl, rfl, rfl, hpath (by decide)⟩
  · exact ⟨_, _, rfl, rfl, rfl, rfl, hpath (by decide)⟩

end Nexal.ReverseProxy
