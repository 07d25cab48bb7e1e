import Nexal.Spec.ReverseProxy

/-! What the reverse proxy sends, and what is in it. -/

namespace Nexal.ReverseProxy

open Gateway (ProxyRegistry ProxyEntry)
open Percent (percentDecode)

variable {α : Type}

/-! Values of a name -/

theorem values_append (hs hs' : HeaderMap) (n : HeaderName) : values (hs ++ hs') n = values hs n ++ values hs' n := by
  rw [values, List.filter_append, List.map_append, values, values]

theorem mem_values {hs : HeaderMap} {n : HeaderName} {v : HeaderValue} : v ∈ values hs n ↔ (n, v) ∈ hs := by
  simp [values]

theorem length_values (hs : HeaderMap) (n : HeaderName) : (values hs n).length = (hs.map (·.1)).count n := by
  rw [values, List.length_map, ← List.countP_eq_length_filter, List.count, List.countP_map]
  refine List.countP_congr fun h _ => ?_
  simp

theorem values_eq_nil {hs : HeaderMap} {n : HeaderName} : values hs n = [] ↔ ∀ h ∈ hs, h.1 ≠ n := by
  rw [values, List.map_eq_nil_iff, List.filter_eq_nil_iff]
  simp

theorem values_filter {p : HeaderName → Bool} {n : HeaderName} (h : p n = true) (hs : HeaderMap) :
    values (hs.filter (p ·.1)) n = values hs n := by
  have hfilter : ∀ x ∈ hs, (decide (x.1 = n) && p x.1) = decide (x.1 = n) := by
    intro x _
    by_cases hx : x.1 = n
    · simp [hx, h]
    · simp [hx]
  rw [values, values, List.filter_filter, List.filter_congr hfilter]

/-! The request that is built -/

theorem header_ok {c : Client α} {b : RequestBuilder α} {name : String} {value : HeaderValue} {r : Outgoing α}
    (h : c.header b name value = .ok r) :
    ∃ r₀ n v, b = .ok r₀ ∧ c.headerName name = .ok n ∧ c.headerValue value = .ok v ∧
      r = { r₀ with headers := r₀.headers ++ [(n, v)] } := by
  unfold Client.header at h
  split at h
  · cases h
  · rename_i r₀
    split at h
    · rename_i n v hn hv
      exact ⟨r₀, n, v, rfl, hn, hv, (Except.ok.inj h).symm⟩
    · cases h
    · cases h

/-- What the `http` crate reads in a name and a value. -/
def Client.read (c : Client α) (h : String × HeaderValue) : Except String HeaderName × Except String HeaderValue :=
  (c.headerName h.1, c.headerValue h.2)

def taken (h : HeaderName × HeaderValue) : Except String HeaderName × Except String HeaderValue := (.ok h.1, .ok h.2)

/-- The headers that are appended one after the other are what is read in them. -/
theorem foldl_header_ok {c : Client α} {hs : List (String × HeaderValue)} {b : RequestBuilder α} {r : Outgoing α}
    (h : hs.foldl (fun b h => c.header b h.1 h.2) b = .ok r) :
    ∃ r₀ added, b = .ok r₀ ∧ r = { r₀ with headers := r₀.headers ++ added } ∧
    hs.map c.read = added.map taken := by
  induction hs generalizing b with
  | nil => exact ⟨r, [], h, by rw [List.append_nil], rfl⟩
  | cons x hs ih =>
    obtain ⟨r₁, added, hb, rfl, hadded⟩ := ih h
    obtain ⟨r₀, n, v, rfl, hn, hv, rfl⟩ := header_ok hb
    have hread : c.read x = taken (n, v) := Prod.ext hn hv
    exact ⟨r₀, (n, v) :: added, rfl, by rw [List.append_assoc, List.singleton_append], by
      rw [List.map_cons, List.map_cons, hread, hadded]⟩

theorem taken_injective : Function.Injective taken := by
  intro h h' heq
  have hfst := Except.ok.inj (congrArg Prod.fst heq)
  have hsnd := Except.ok.inj (congrArg Prod.snd heq)
  exact Prod.ext hfst hsnd

/-- The request: what the URL says, what is carried over and what is registered, each as it is read. -/
theorem prepare_ok {c : Client α} {entry : ProxyEntry} {method target : String} {body : List UInt8} {hs : HeaderMap}
    {r : Outgoing α} (h : prepare c entry method target body hs = .ok r) :
    ∃ kept added, c.url.parse target.toList = some r.url ∧ r.headers = c.fromUrl r.url.authority ++ kept ++ added ∧
      (hs.filter (carries ·.1)).map c.read = kept.map taken ∧
      entry.headers.map (fun h => c.read (h.1, Utf8.encode h.2)) = added.map taken := by
  have hinjected : ∀ b, entry.headers.foldl (fun b h => c.header b h.1 (Utf8.encode h.2)) b =
      (entry.headers.map fun h => (h.1, Utf8.encode h.2)).foldl (fun b h => c.header b h.1 h.2) b := by
    intro b
    rw [List.foldl_map]
  have hcarried : ∀ b, hs.foldl (fun b h => if carries h.1 then c.header b h.1 h.2 else b) b =
      (hs.filter (carries ·.1)).foldl (fun b h => c.header b h.1 h.2) b := by
    intro b
    rw [List.foldl_filter]
  rw [prepare, hinjected, hcarried] at h
  obtain ⟨r₁, added, hbuilt, rfl, hadded⟩ := foldl_header_ok h
  obtain ⟨r₀, kept, hrequest, rfl, hkept⟩ := foldl_header_ok hbuilt
  rw [Client.request] at hrequest
  split at hrequest
  · rename_i url hurl
    cases hrequest
    rw [List.map_map] at hadded
    exact ⟨kept, added, hurl, rfl, hkept, hadded⟩
  · cases hrequest

theorem addDefault_values {hs : HeaderMap} {n : HeaderName} (hn : values hs n ≠ []) (h : HeaderName × HeaderValue) :
    values (Client.addDefault hs h) n = values hs n := by
  unfold Client.addDefault
  split_ifs with hany
  · rfl
  · rw [values_append]
    have hne : h.1 ≠ n := by
      rintro rfl
      obtain ⟨x, hx, heq⟩ : ∃ x ∈ hs, x.1 = h.1 := by
        by_contra hno
        exact hn (values_eq_nil.mpr fun x hx heq => hno ⟨x, hx, heq⟩)
      exact hany (List.any_eq_true.mpr ⟨x, hx, decide_eq_true heq⟩)
    have hnone : values [h] n = [] := values_eq_nil.mpr (List.forall_mem_singleton.mpr hne)
    rw [hnone, List.append_nil]

/-- What the client adds of its own leaves the names alone that are there. -/
theorem complete_values {c : Client α} {r : Outgoing α} {n : HeaderName} (hn : values r.headers n ≠ []) :
    values (c.complete r).headers n = values r.headers n := by
  have hfold : ∀ (ds hs : HeaderMap), values hs n ≠ [] → values (ds.foldl Client.addDefault hs) n = values hs n := by
    intro ds
    induction ds with
    | nil => exact fun _ _ => rfl
    | cons d ds ih =>
      intro hs hne
      have hadd := addDefault_values hne d
      rw [List.foldl_cons, ih _ (by rwa [hadd]), hadd]
  exact hfold c.defaults r.headers hn

/-- What is sent is what has been built. -/
theorem forward_sent {c : Client α} {registry : ProxyRegistry} {answer : Outgoing α → Except String Response}
    {token rest : String} {req : Request} {entry : ProxyEntry} {sent : Outgoing α}
    (hentry : registry.lookup token = some entry) (h : (forward c registry answer token rest req).1 = some sent) :
    ∃ target body r, buildUpstreamUrl entry.upstreamUrl rest req.uri = .ok target ∧ req.body = .ok body ∧
      prepare c entry req.method target body req.headers = .ok r ∧ sent = c.complete r := by
  unfold forward at h
  rw [hentry] at h
  dsimp only at h
  split at h
  · cases h
  · rename_i target htarget
    split at h
    · cases h
    · rename_i body hbody
      split at h
      · cases h
      · rename_i r hr
        exact ⟨target, body, r, htarget, hbody, hr, (Option.some.inj h).symm⟩

/-- What is sent for a request is what is sent for the token and the path that are decoded. -/
theorem serve_sent {c : Client α} {registry : ProxyRegistry} {answer : Outgoing α → Except String Response}
    {req : Request}
    {token after : List Char} {key : String} {sent : Outgoing α} (hroute : route req.uri.path.toList = some (token, after))
    (hkey : Utf8.fromUtf8 (percentDecode token) = some key) (h : (serve c registry answer req).1 = some sent) :
    ∃ rest, Utf8.fromUtf8 (percentDecode (after.drop 1)) = some rest ∧
      (forward c registry answer key rest req).1 = some sent := by
  unfold serve at h
  rw [hroute] at h
  dsimp only at h
  rw [hkey] at h
  dsimp only at h
  cases after with
  | nil => exact ⟨"", rfl, h⟩
  | cons s raw =>
    dsimp only at h
    split at h
    · cases h
    · rename_i rest hrest
      exact ⟨rest, hrest, h⟩

/-- After the token there is nothing, or a slash and something. -/
theorem route_after {path token after : List Char} (h : route path = some (token, after)) :
    after = [] ∨ ∃ raw, raw ≠ [] ∧ after = '/' :: raw := by
  unfold route at h
  split at h
  · rename_i tail
    dsimp only at h
    split_ifs at h with hnone
    cases h
    cases hafter : tail.dropWhile (· ≠ '/') with
    | nil => exact Or.inl rfl
    | cons s raw =>
      have hhead := List.head?_dropWhile_not (· ≠ '/') tail
      rw [hafter] at hhead
      obtain rfl : s = '/' := by simpa using hhead
      refine Or.inr ⟨raw, ?_, rfl⟩
      rintro rfl
      exact hnone (Or.inr hafter)
  · cases h

/-! A client that takes every name and value -/

def lowerCase : Client (List Char) where
  url := ⟨fun _ authority => some authority, false⟩
  badUrl _ := "builder error: relative URL without a base"
  basicAuth _ := none
  headerName name := .ok (String.ofList (name.toList.map Char.toLower))
  headerValue := .ok
  defaults := [("accept", Utf8.encode "*/*")]

def oneProxy (upstream : String) (headers : List (String × String)) : ProxyRegistry :=
  .register .new "agent" "jina" upstream headers "tok"

end Nexal.ReverseProxy
