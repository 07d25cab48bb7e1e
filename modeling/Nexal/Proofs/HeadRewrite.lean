import Nexal.Spec.AgentProxy

/-! The head that the agent's proxy sends upstream. It is the client's head line by line, whatever the reads
are in which the client's bytes come. -/

namespace Nexal.AgentProxy

open Utf8 (bytes bytes_append bytes_cons length_encodeChar_pos)

/-- The lines of a head that is sent upstream, for a request line of `method`, `path` and `suffix`. -/
def headLines (upstream : UpstreamInfo) (injectHeaders : List (String × String)) (method path suffix : List Char)
    (headers : List (List Char)) : List (List Char) :=
  [method ++ ' ' :: (upstream.pathPrefix.toList.rdropWhile (· = '/') ++ path ++ suffix),
    "Host: ".toList ++ upstream.host.toList] ++
    headers.filter (!isHost ·) ++ injectHeaders.map (fun h => h.1.toList ++ ": ".toList ++ h.2.toList) ++ [[]]

def joinLines (lines : List (List Char)) : String := String.ofList (lines.flatMap (· ++ crlf))

/-- Nothing before the end of `head` is a blank line. -/
def FirstBlank (head body : List UInt8) : Prop :=
  ∀ a b, head ++ headEnd ++ body = a ++ headEnd ++ b → head.length ≤ a.length

def withVersion (suffix : List Char) : List Char := if suffix = [] then " HTTP/1.1".toList else suffix

/-! Finding the end of the head -/

variable {l l' needle : List UInt8} {i : ℕ}

theorem findSubsequence_eq_some (hne : needle ≠ []) : findSubsequence l needle = some i ↔
    (l.drop i).take needle.length = needle ∧ ∀ j < i, (l.drop j).take needle.length ≠ needle := by
  have hpos := List.length_pos_iff.mpr hne
  have hfits : (l.drop i).take needle.length = needle → i < l.length + 1 - needle.length := by
    intro h
    have hlength := congrArg List.length h
    rw [List.length_take, List.length_drop] at hlength
    omega
  rw [findSubsequence, List.find?_range_eq_some]
  simp only [decide_eq_true_eq, Bool.not_eq_true', decide_eq_false_iff_not, List.mem_range]
  constructor
  · rintro ⟨h, -, hfirst⟩
    exact ⟨h, hfirst⟩
  · rintro ⟨h, hfirst⟩
    exact ⟨h, hfits h, hfirst⟩

theorem findSubsequence_eq_none (hne : needle ≠ []) : findSubsequence l needle = none ↔
    ∀ i, (l.drop i).take needle.length ≠ needle := by
  constructor
  · intro hnone i h
    have hpos := List.length_pos_iff.mpr hne
    have hlength := congrArg List.length h
    rw [List.length_take, List.length_drop] at hlength
    have hno := List.find?_eq_none.mp hnone i (List.mem_range.mpr (by omega))
    exact hno (decide_eq_true h)
  · intro h
    exact List.find?_eq_none.mpr fun i _ hi => h i (of_decide_eq_true hi)

theorem window_append {n : ℕ} (h : i + n ≤ l.length) (l' : List UInt8) :
    ((l ++ l').drop i).take n = (l.drop i).take n := by
  rw [List.drop_append_of_le_length (by omega), List.take_append_of_le_length]
  rw [List.length_drop]
  omega

/-- Where a text is found, it is found when more comes. -/
theorem findSubsequence_append (hne : needle ≠ []) (h : findSubsequence l needle = some i) (l' : List UInt8) :
    findSubsequence (l ++ l') needle = some i := by
  obtain ⟨hi, hfirst⟩ := (findSubsequence_eq_some hne).mp h
  have hpos := List.length_pos_iff.mpr hne
  have hlength := congrArg List.length hi
  rw [List.length_take, List.length_drop] at hlength
  refine (findSubsequence_eq_some hne).mpr ⟨?_, fun j hj => ?_⟩
  · rw [window_append (by omega)]
    exact hi
  · rw [window_append (by omega)]
    exact hfirst j hj

/-- The first place comes no later than any. -/
theorem findSubsequence_le (hne : needle ≠ []) (a b : List UInt8) :
    ∃ i ≤ a.length, findSubsequence (a ++ needle ++ b) needle = some i := by
  have hoccurs : ((a ++ needle ++ b).drop a.length).take needle.length = needle := by
    rw [List.append_assoc, List.drop_left, List.take_left]
  cases h : findSubsequence (a ++ needle ++ b) needle with
  | none => exact absurd hoccurs ((findSubsequence_eq_none hne).mp h a.length)
  | some i =>
    refine ⟨i, ?_, rfl⟩
    by_contra hlt
    exact ((findSubsequence_eq_some hne).mp h).2 a.length (by omega) hoccurs

/-! Reading the head -/

variable {head body : List UInt8}

theorem headEnd_ne_nil : headEnd ≠ [] := List.cons_ne_nil _ _

theorem FirstBlank.found (h : FirstBlank head body) :
    findSubsequence (head ++ headEnd ++ body) headEnd = some head.length := by
  obtain ⟨i, hle, hi⟩ := findSubsequence_le headEnd_ne_nil head body
  have hwindow := ((findSubsequence_eq_some headEnd_ne_nil).mp hi).1
  have hsplit : head ++ headEnd ++ body = (head ++ headEnd ++ body).take i ++ headEnd ++
      ((head ++ headEnd ++ body).drop i).drop headEnd.length := by
    conv_lhs => rw [← List.take_append_drop i (head ++ headEnd ++ body),
      ← List.take_append_drop headEnd.length ((head ++ headEnd ++ body).drop i), hwindow]
    exact (List.append_assoc _ _ _).symm
  have hlength := h _ _ hsplit
  rw [List.length_take] at hlength
  rw [hi, show i = head.length by omega]

/-- A buffer as long as the head and its end has them. -/
theorem buffer_has_head {buf rest : List UInt8} (hbytes : buf ++ rest = head ++ headEnd ++ body)
    (hlong : head.length + 4 ≤ buf.length) : ∃ taken, buf = head ++ headEnd ++ taken ∧ taken ++ rest = body := by
  have hle : (head ++ headEnd).length ≤ buf.length := by
    rw [List.length_append]
    exact hlong
  obtain ⟨taken, rfl⟩ := List.prefix_of_prefix_length_le (List.prefix_append (head ++ headEnd) body)
    (hbytes ▸ List.prefix_append buf rest) hle
  rw [List.append_assoc] at hbytes
  exact ⟨taken, rfl, List.append_cancel_left hbytes⟩

/-- However the bytes are split, the loop stops with the read that ends the head. -/
theorem readHead_found (hfirst : findSubsequence (head ++ headEnd ++ body) headEnd = some head.length)
    (hsize : head.length + 4 ≤ 1024 * 1024) {buf : List UInt8} {reads : List (List UInt8)}
    (hreads : buf ++ reads.flatten = head ++ headEnd ++ body) (hbuf : findSubsequence buf headEnd = none)
    (hne : ∀ r ∈ reads, r ≠ []) :
    ∃ used rest taken, reads = used ++ rest ∧ taken ++ rest.flatten = body ∧
      readHead buf reads = .found (head ++ headEnd ++ taken) head.length rest := by
  induction reads generalizing buf with
  | nil =>
    rw [List.flatten_nil, List.append_nil] at hreads
    rw [← hreads, hbuf] at hfirst
    cases hfirst
  | cons chunk rest ih =>
    obtain ⟨hchunk, hrest⟩ := List.forall_mem_cons.mp hne
    rw [List.flatten_cons, ← List.append_assoc] at hreads
    cases hfound : findSubsequence (buf ++ chunk) headEnd with
    | some pos =>
      have hpos := findSubsequence_append headEnd_ne_nil hfound rest.flatten
      rw [hreads, hfirst] at hpos
      obtain rfl := Option.some.inj hpos
      -- the buffer has the head and its end
      have hwindow := ((findSubsequence_eq_some headEnd_ne_nil).mp hfound).1
      have hlength := congrArg List.length hwindow
      rw [List.length_take, List.length_drop] at hlength
      have hlong : head.length + 4 ≤ (buf ++ chunk).length := by
        have hfour : headEnd.length = 4 := rfl
        omega
      obtain ⟨taken, htaken, hbody⟩ := buffer_has_head hreads hlong
      refine ⟨[chunk], rest, taken, rfl, hbody, ?_⟩
      rw [readHead, if_neg hchunk, hfound, htaken]
    | none =>
      have hshort : ¬ (buf ++ chunk).length > 1024 * 1024 := by
        intro hlong
        obtain ⟨taken, htaken, -⟩ := buffer_has_head hreads (hsize.trans hlong.le)
        obtain ⟨i, -, hi⟩ := findSubsequence_le headEnd_ne_nil head taken
        rw [← htaken, hfound] at hi
        cases hi
      obtain ⟨used, rest', taken, hsplit, hbody, hread⟩ := ih hreads hfound hrest
      refine ⟨chunk :: used, rest', taken, by rw [hsplit]; rfl, hbody, ?_⟩
      rw [readHead, if_neg hchunk, hfound]
      dsimp only
      rw [if_neg hshort, hread]

/-! Lines -/

theorem splitCrlf_break (l : List Char) : (splitCrlf l).1 = (breakCrlf l).1 ∧
    splitCrlf (breakCrlf l).2 = ([], (splitCrlf l).2) := by
  fun_induction splitCrlf l with
  | case1 rest ih => exact ⟨rfl, rfl⟩
  | case2 c rest hbreak ih =>
    rw [breakCrlf]
    · exact ⟨congrArg (c :: ·) ih.1, ih.2⟩
    · exact hbreak
  | case3 => exact ⟨rfl, rfl⟩

theorem first_eq_nil {l : List Char} (h : (splitCrlf l).1 = []) : l = [] ∨ ∃ rest, l = crlf ++ rest := by
  fun_induction splitCrlf l with
  | case1 rest _ => exact Or.inr ⟨rest, rfl⟩
  | case2 c rest _ _ => cases h
  | case3 => exact Or.inl rfl

/-- An empty line makes two line breaks in a row, with the one that ends the text. -/
theorem blank_of_mem {l : List Char} (h : [] ∈ (splitCrlf l).2) :
    ∃ a b, l ++ crlf = a ++ crlf ++ crlf ++ b ∧ a.length < l.length := by
  fun_induction splitCrlf l with
  | case1 rest ih =>
    rcases List.mem_cons.mp h with hfirst | hothers
    · rcases first_eq_nil hfirst.symm with rfl | ⟨rest, rfl⟩
      · exact ⟨[], [], rfl, by simp⟩
      · exact ⟨[], rest ++ crlf, rfl, by simp⟩
    · obtain ⟨a, b, heq, hlt⟩ := ih hothers
      refine ⟨'\r' :: '\n' :: a, b, ?_, by simpa using hlt⟩
      exact congrArg (fun l => '\r' :: '\n' :: l) heq
  | case2 c rest _ ih =>
    obtain ⟨a, b, heq, hlt⟩ := ih h
    exact ⟨c :: a, b, congrArg (c :: ·) heq, by simpa using hlt⟩
  | case3 => cases h

/-- The head ends with the first blank line, so that it has none in it. -/
theorem no_blank_line {text : String} (htext : Utf8.encode text = head)
    (hfirst : findSubsequence (head ++ headEnd ++ body) headEnd = some head.length) : [] ∉ (splitCrlf text.toList).2 := by
  intro hmem
  obtain ⟨a, b, heq, hlt⟩ := blank_of_mem hmem
  have hstart : a <+: text.toList := by
    refine List.prefix_of_prefix_length_le ?_ (List.prefix_append text.toList crlf) hlt.le
    rw [heq, List.append_assoc, List.append_assoc]
    exact List.prefix_append _ _
  obtain ⟨tail, htail⟩ := hstart
  have hhead : head = bytes a ++ bytes tail := by rw [← htext, ← bytes_append, htail, Utf8.encode, bytes]
  have hne : 0 < (bytes tail).length := by
    cases tail with
    | nil =>
      rw [← htail, List.append_nil] at hlt
      exact absurd hlt (Nat.lt_irrefl _)
    | cons c tail =>
      rw [bytes_cons, List.length_append]
      exact Nat.add_pos_left (length_encodeChar_pos c) _
  -- the blank line, in bytes
  have hbytes : head ++ headEnd ++ body = bytes a ++ headEnd ++ (bytes b ++ bytes crlf ++ body) := by
    have hend : headEnd = bytes crlf ++ bytes crlf := rfl
    have hline : head ++ bytes crlf = bytes a ++ headEnd ++ bytes b := by
      rw [hhead, ← bytes_append, htail, ← bytes_append, heq, hend]
      simp only [bytes_append, List.append_assoc]
    rw [hend, ← List.append_assoc, hline, hend]
    simp only [List.append_assoc]
  obtain ⟨i, hle, hi⟩ := findSubsequence_le headEnd_ne_nil (bytes a) (bytes b ++ bytes crlf ++ body)
  rw [← hbytes, hfirst] at hi
  cases hi
  rw [hhead, List.length_append] at hle
  omega

/-! The request line -/

theorem splitn_cons {sep : Char} {a : List Char} (ha : sep ∉ a) (n : ℕ) (b : List Char) :
    splitn (n + 2) sep (a ++ sep :: b) = a :: splitn (n + 1) sep b := by
  have htake : ∀ c ∈ a, decide (c ≠ sep) = true := fun c hc => decide_eq_true fun heq => ha (heq ▸ hc)
  rw [splitn, List.dropWhile_append_of_pos htake, List.takeWhile_append_of_pos htake]
  simp

theorem splitn_of_not_mem {sep : Char} {a : List Char} (ha : sep ∉ a) (n : ℕ) : splitn (n + 1) sep a = [a] := by
  cases n with
  | zero => rfl
  | succ n =>
    have hnil : a.dropWhile (· ≠ sep) = [] :=
      List.dropWhile_eq_nil_iff.mpr fun c hc => decide_eq_true fun heq => ha (heq ▸ hc)
    rw [splitn, hnil]

/-! The rewritten head -/

theorem foldl_lines (lines : List (List Char)) (out : List Char) :
    lines.foldl (fun out line => if line = [] then out else if isHost line then out else out ++ line ++ crlf) out =
      out ++ ((lines.filter (· ≠ [])).filter (!isHost ·)).flatMap (· ++ crlf) := by
  induction lines generalizing out with
  | nil => exact (List.append_nil out).symm
  | cons line lines ih =>
    rw [List.foldl_cons, ih]
    by_cases hempty : line = []
    · simp [hempty]
    · cases hhost : isHost line with
      | true => simp [hempty, hhost]
      | false => simp [hempty, hhost]

theorem foldl_injected (injectHeaders : List (String × String)) (out : List Char) :
    injectHeaders.foldl (fun out h => out ++ (h.1.toList ++ ": ".toList ++ h.2.toList ++ crlf)) out =
      out ++ (injectHeaders.map fun h => h.1.toList ++ ": ".toList ++ h.2.toList).flatMap (· ++ crlf) := by
  induction injectHeaders generalizing out with
  | nil => exact (List.append_nil out).symm
  | cons h injectHeaders ih => rw [List.foldl_cons, ih, List.map_cons, List.flatMap_cons, List.append_assoc]

theorem rewriteHead_eq (upstream : UpstreamInfo) (injectHeaders : List (String × String)) {text : String}
    {method path suffix : List Char} (hline : (splitCrlf text.toList).1 = method ++ ' ' :: (path ++ suffix))
    (hmethod : ' ' ∉ method) (hpath : ' ' ∉ path) (hsuffix : suffix = [] ∨ suffix.head? = some ' ')
    (hblank : [] ∉ (splitCrlf text.toList).2) :
    rewriteHead upstream injectHeaders text =
      .ok (joinLines (headLines upstream injectHeaders method path (withVersion suffix) (splitCrlf text.toList).2)) := by
  obtain ⟨hfirst, hothers⟩ := splitCrlf_break text.toList
  have hfull : ∀ line ∈ (splitCrlf text.toList).2, decide (line ≠ []) = true := by
    rintro line hl
    refine decide_eq_true ?_
    rintro rfl
    exact hblank hl
  have hheaders : (([] :: (splitCrlf text.toList).2).filter (· ≠ [])).filter (!isHost ·) =
      (splitCrlf text.toList).2.filter (!isHost ·) := by
    rw [List.filter_cons_of_neg (by simp), List.filter_eq_self.mpr hfull]
  have hstart : ∀ p : List Char, (if p = [] then path else p.rdropWhile (· = '/') ++ path) =
    p.rdropWhile (· = '/') ++ path := by
    intro p
    split_ifs with hp
    · rw [hp]
      rfl
    · rfl
  have hparts : ∃ more, splitn 3 ' ' (breakCrlf text.toList).1 = method :: path :: more ∧
      ' ' :: more.head?.getD "HTTP/1.1".toList = withVersion suffix := by
    rw [← hfirst, hline, splitn_cons hmethod]
    rcases hsuffix with rfl | hspace
    · refine ⟨[], ?_, rfl⟩
      rw [List.append_nil, splitn_of_not_mem hpath]
    · cases suffix with
      | nil => cases hspace
      | cons s version =>
        cases hspace
        exact ⟨[version], by rw [splitn_cons hpath]; rfl, rfl⟩
  obtain ⟨more, hsplit, hversion⟩ := hparts
  rw [rewriteHead, hothers, hsplit]
  dsimp only
  rw [hstart, foldl_lines, foldl_injected, hheaders, joinLines, headLines]
  simp only [← hversion, List.flatMap_append, List.flatMap_cons, List.flatMap_nil, List.append_assoc, List.cons_append,
    List.nil_append, List.append_nil]

/-- Whatever the reads, the head goes upstream line by line, and after it what has been read of the body. -/
theorem head_rewritten (upstream : UpstreamInfo) (injectHeaders : List (String × String)) {text : String}
    {method path suffix : List Char} {reads : List (List UInt8)} (hfirst : FirstBlank head body)
    (hsize : head.length + headEnd.length ≤ 1024 * 1024) (htext : Utf8.fromUtf8 head = some text)
    (hline : (splitCrlf text.toList).1 = method ++ ' ' :: (path ++ suffix)) (hmethod : ' ' ∉ method) (hpath : ' ' ∉ path)
    (hsuffix : suffix = [] ∨ suffix.head? = some ' ') (hreads : reads.flatten = head ++ headEnd ++ body)
    (hne : ∀ r ∈ reads, r ≠ []) :
    ∃ used rest taken, reads = used ++ rest ∧ taken ++ rest.flatten = body ∧
      handleConnection upstream injectHeaders reads = .bridged
        (Utf8.encode (joinLines (headLines upstream injectHeaders method path (withVersion suffix)
          (splitCrlf text.toList).2)))
        taken rest := by
  have hstart : findSubsequence [] headEnd = none := by decide
  have hall : [] ++ reads.flatten = head ++ headEnd ++ body := hreads
  obtain ⟨used, rest, taken, hsplit, hbody, hread⟩ := readHead_found hfirst.found hsize hall hstart hne
  have hblank := no_blank_line (Utf8.fromUtf8_eq_some.mp htext) hfirst.found
  have hhead : (head ++ headEnd ++ taken).take head.length = head := by
    rw [List.append_assoc, List.take_left]
  have htaken : (head ++ headEnd ++ taken).drop (head.length + 4) = taken :=
    List.drop_left' List.length_append
  refine ⟨used, rest, taken, hsplit, hbody, ?_⟩
  rw [handleConnection, hread]
  dsimp only
  rw [hhead, htext]
  dsimp only
  rw [rewriteHead_eq upstream injectHeaders hline hmethod hpath hsuffix hblank, htaken]

def telegram : UpstreamInfo := ⟨"api.tg.org", 443, true, "/bot1/"⟩

def shortHead : List UInt8 := Utf8.encode "G /a V\r\nHost:x\r\nB:c"

def shortReads : List (List UInt8) := [Utf8.encode "G /a V\r\nHost:x", Utf8.encode "\r\nB:c\r", [10, 13], [10, 7], [8]]

theorem firstBlank_of_found (h : findSubsequence (head ++ headEnd ++ body) headEnd = some head.length) :
    FirstBlank head body := by
  intro a b hab
  obtain ⟨i, hle, hi⟩ := findSubsequence_le headEnd_ne_nil a b
  rw [← hab, h] at hi
  cases hi
  exact hle

theorem head_rewritten_short : FirstBlank shortHead [7, 8] ∧
    ∃ used rest taken, shortReads = used ++ rest ∧ taken ++ rest.flatten = [7, 8] ∧
      handleConnection telegram [("Key", "v")] shortReads = .bridged
        (Utf8.encode (joinLines (headLines telegram [("Key", "v")] ['G'] "/a".toList (withVersion " V".toList)
          ["Host:x".toList, "B:c".toList]))) taken rest := by
  have hfirst : FirstBlank shortHead [7, 8] := firstBlank_of_found (by decide)
  have hline : splitCrlf "G /a V\r\nHost:x\r\nB:c".toList =
      (['G'] ++ ' ' :: ("/a".toList ++ " V".toList), ["Host:x".toList, "B:c".toList]) := by decide
  have htext : Utf8.fromUtf8 shortHead = some "G /a V\r\nHost:x\r\nB:c" := Utf8.fromUtf8_eq_some.mpr rfl
  have hreads : shortReads.flatten = shortHead ++ headEnd ++ [7, 8] := by decide
  have hrewritten := head_rewritten telegram [("Key", "v")] hfirst (by decide) htext (congrArg Prod.fst hline) (by decide)
    (by decide) (Or.inr rfl) hreads (by decide)
  rw [hline] at hrewritten
  exact ⟨hfirst, hrewritten⟩

/-- A request line of a method and a path alone gets a version. -/
theorem version_added : FirstBlank (Utf8.encode "GET /x") [] ∧
    handleConnection ⟨"h", 80, false, ""⟩ [] [Utf8.encode "GET /x\r\n\r\n"] =
      .bridged (Utf8.encode "GET /x HTTP/1.1\r\nHost: h\r\n\r\n") [] [] ∧
    ∀ taken rest, handleConnection ⟨"h", 80, false, ""⟩ [] [Utf8.encode "GET /x\r\n\r\n"] ≠
      .bridged (Utf8.encode (joinLines (headLines ⟨"h", 80, false, ""⟩ [] "GET".toList "/x".toList [] []))) taken
        rest := by
  have hconnect : handleConnection ⟨"h", 80, false, ""⟩ [] [Utf8.encode "GET /x\r\n\r\n"] =
      .bridged (Utf8.encode "GET /x HTTP/1.1\r\nHost: h\r\n\r\n") [] [] := rfl
  refine ⟨firstBlank_of_found (by decide), hconnect, fun taken rest heq => ?_⟩
  rw [hconnect] at heq
  have hbytes := congrArg List.length (Outcome.bridged.inj heq).1
  revert hbytes
  decide

end Nexal.AgentProxy
