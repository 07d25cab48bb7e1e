import Nexal.Sanity.ReverseProxy

/-! The headers of a request that the reverse proxy sends. The registered ones are appended to those of
the caller, and a name keeps all the values appended to it. -/

namespace Nexal.ReverseProxy

open Gateway (ProxyRegistry ProxyEntry)

variable {α : Type}

/-- The headers of a request come from the `http` crate, which takes its own names and values as they are. -/
def Received (c : Client α) (headers : HeaderMap) : Prop :=
  ∀ h ∈ headers, c.headerName h.1 = .ok h.1 ∧ c.headerValue h.2 = .ok h.2

structure InjectedWin (c : Client α) (entry : ProxyEntry) (req : Request) (sent : Outgoing α) : Prop where
  injected : ∀ r ∈ entry.headers, ∀ n v, c.headerName r.1 = .ok n → c.headerValue (Utf8.encode r.2) = .ok v →
    values sent.headers n = [v]
  carried : ∀ h ∈ req.headers, carries h.1 = true → (∀ r ∈ entry.headers, c.headerName r.1 ≠ .ok h.1) →
    values sent.headers h.1 = values (c.fromUrl sent.url.authority) h.1 ++ values req.headers h.1

/-- No registered name is that of a header that is carried over, of the credentials in the upstream URL,
or of another registered header. -/
structure NoCollision (c : Client α) (entry : ProxyEntry) (rest : String) (req : Request) : Prop where
  caller : ∀ r ∈ entry.headers, ∀ h ∈ req.headers, carries h.1 = true → c.headerName r.1 ≠ .ok h.1
  user : ∀ r ∈ entry.headers, c.headerName r.1 = .ok "authorization" →
    ∀ target url, buildUpstreamUrl entry.upstreamUrl rest req.uri = .ok target → c.url.parse target.toList = some url →
      c.basicAuth url.authority = none
  distinct : (entry.headers.map fun r => c.headerName r.1).Nodup

/-- The values of a name that is sent: those of the upstream URL, those carried over, those registered. -/
theorem sent_spec {c : Client α} {registry : ProxyRegistry} {answer : Outgoing α → Except String Response}
    {token rest : String} {req : Request} {entry : ProxyEntry} {sent : Outgoing α}
    (hentry : registry.lookup token = some entry) (hreq : Received c req.headers)
    (h : (forward c registry answer token rest req).1 = some sent) :
    ∃ target added, buildUpstreamUrl entry.upstreamUrl rest req.uri = .ok target ∧
      c.url.parse target.toList = some sent.url ∧
      entry.headers.map (fun h => c.read (h.1, Utf8.encode h.2)) = added.map taken ∧
      ∀ n v, v ∈ values (req.headers.filter (carries ·.1) ++ added) n →
        values sent.headers n = values (c.fromUrl sent.url.authority) n ++ values (req.headers.filter (carries ·.1)) n ++
          values added n := by
  obtain ⟨target, body, r, htarget, -, hr, rfl⟩ := forward_sent hentry h
  obtain ⟨kept, added, hurl, hheaders, hkept, hadded⟩ := prepare_ok hr
  have hread : (req.headers.filter (carries ·.1)).map c.read = (req.headers.filter (carries ·.1)).map taken := by
    refine List.map_congr_left fun x hx => ?_
    obtain ⟨hname, hvalue⟩ := hreq x (List.mem_of_mem_filter hx)
    exact Prod.ext hname hvalue
  rw [← List.map_injective_iff.mpr taken_injective (hread.symm.trans hkept)] at hheaders
  refine ⟨target, added, htarget, hurl, hadded, fun n v hv => ?_⟩
  have hvalues : values r.headers n = values (c.fromUrl r.url.authority) n ++ values (req.headers.filter (carries ·.1)) n ++
      values added n := by
    rw [hheaders, values_append, values_append]
  refine (complete_values fun hnil => ?_).trans hvalues
  rw [hheaders, List.append_assoc, values_append] at hnil
  rw [(List.append_eq_nil_iff.mp hnil).2] at hv
  cases hv

theorem names_of_added {c : Client α} {entry : ProxyEntry} {added : HeaderMap}
    (h : entry.headers.map (fun h => c.read (h.1, Utf8.encode h.2)) = added.map taken) :
    (entry.headers.map fun r => c.headerName r.1) = (added.map (·.1)).map .ok := by
  have hnames := congrArg (List.map Prod.fst) h
  rw [List.map_map, List.map_map] at hnames
  rw [List.map_map]
  exact hnames

theorem mem_added {c : Client α} {entry : ProxyEntry} {added : HeaderMap}
    (h : entry.headers.map (fun h => c.read (h.1, Utf8.encode h.2)) = added.map taken) {r : String × String}
    (hr : r ∈ entry.headers) : ∃ x ∈ added, c.headerName r.1 = .ok x.1 ∧
    c.headerValue (Utf8.encode r.2) = .ok x.2 := by
  have hmem : c.read (r.1, Utf8.encode r.2) ∈ added.map taken := h ▸ List.mem_map_of_mem hr
  obtain ⟨x, hx, heq⟩ := List.mem_map.mp hmem
  exact ⟨x, hx, (congrArg Prod.fst heq).symm, (congrArg Prod.snd heq).symm⟩

theorem registered_of_added {c : Client α} {entry : ProxyEntry} {added : HeaderMap}
    (h : entry.headers.map (fun h => c.read (h.1, Utf8.encode h.2)) = added.map taken) {x : HeaderName × HeaderValue}
    (hx : x ∈ added) : ∃ r ∈ entry.headers, c.headerName r.1 = .ok x.1 := by
  have hmem : taken x ∈ entry.headers.map fun h => c.read (h.1, Utf8.encode h.2) := h ▸ List.mem_map_of_mem hx
  obtain ⟨r, hr, heq⟩ := List.mem_map.mp hmem
  exact ⟨r, hr, congrArg Prod.fst heq⟩

theorem fromUrl_values {c : Client α} {a : α} {n : HeaderName} :
    values (c.fromUrl a) n = [] ↔ (n = "authorization" → c.basicAuth a = none) := by
  rw [values_eq_nil, Client.fromUrl]
  cases c.basicAuth a with
  | none => simp
  | some v =>
    simp only [Option.toList_some, List.map_cons, List.map_nil, List.mem_singleton, forall_eq, reduceCtorEq, imp_false]
    exact ne_comm

theorem InjectedWin.noCollision {c : Client α} {registry : ProxyRegistry} {answer : Outgoing α → Except String Response}
    {token rest : String} {req : Request} {entry : ProxyEntry} {sent : Outgoing α}
    (hentry : registry.lookup token = some entry) (hreq : Received c req.headers)
    (hsent : (forward c registry answer token rest req).1 = some sent) (h : InjectedWin c entry req sent) :
    NoCollision c entry rest req := by
  obtain ⟨target, added, htarget, hurl, hadded, hvalues⟩ := sent_spec hentry hreq hsent
  -- one value leaves no room for others
  have hone : ∀ r ∈ entry.headers, ∀ n, c.headerName r.1 = .ok n → values (c.fromUrl sent.url.authority) n = [] ∧
      values (req.headers.filter (carries ·.1)) n = [] ∧ (values added n).length = 1 := by
    intro r hr n hn
    obtain ⟨x, hx, hname, hvalue⟩ := mem_added hadded hr
    obtain rfl := Except.ok.inj (hname.symm.trans hn)
    have hmem : x.2 ∈ values added x.1 := mem_values.mpr hx
    have hlength := congrArg List.length (hvalues x.1 x.2 (mem_values.mpr (List.mem_append_right _ hx)))
    rw [h.injected r hr x.1 x.2 hname hvalue, List.length_append, List.length_append, List.length_singleton] at hlength
    have hpos := List.length_pos_of_mem hmem
    exact ⟨List.length_eq_zero_iff.mp (by omega), List.length_eq_zero_iff.mp (by omega), by omega⟩
  refine ⟨fun r hr x hx hcarries hn => ?_, fun r hr hn target' url htarget' hurl' => ?_, ?_⟩
  · have hnone := values_eq_nil.mp (hone r hr x.1 hn).2.1
    exact hnone x (List.mem_filter.mpr ⟨hx, hcarries⟩) rfl
  · obtain rfl := Except.ok.inj (htarget.symm.trans htarget')
    obtain rfl := Option.some.inj (hurl.symm.trans hurl')
    exact fromUrl_values.mp (hone r hr "authorization" hn).1 rfl
  · rw [names_of_added hadded]
    refine List.Nodup.map (fun _ _ => Except.ok.inj) (List.nodup_iff_count_le_one.mpr fun n => ?_)
    rw [← length_values]
    by_cases hmem : ∃ x ∈ added, x.1 = n
    · obtain ⟨x, hx, rfl⟩ := hmem
      obtain ⟨r, hr, hn⟩ := registered_of_added hadded hx
      exact (hone r hr x.1 hn).2.2.le
    · rw [values_eq_nil.mpr fun x hx heq => hmem ⟨x, hx, heq⟩]
      exact Nat.zero_le 1

theorem NoCollision.injectedWin {c : Client α} {registry : ProxyRegistry} {answer : Outgoing α → Except String Response}
    {token rest : String} {req : Request} {entry : ProxyEntry} {sent : Outgoing α}
    (hentry : registry.lookup token = some entry) (hreq : Received c req.headers)
    (hsent : (forward c registry answer token rest req).1 = some sent) (h : NoCollision c entry rest req) :
    InjectedWin c entry req sent := by
  obtain ⟨target, added, htarget, hurl, hadded, hvalues⟩ := sent_spec hentry hreq hsent
  refine ⟨fun r hr n v hn hv => ?_, fun x hx hcarries hother => ?_⟩
  · obtain ⟨x, hx, hname, hvalue⟩ := mem_added hadded hr
    obtain rfl := Except.ok.inj (hname.symm.trans hn)
    obtain rfl := Except.ok.inj (hvalue.symm.trans hv)
    have hmem : x.2 ∈ values added x.1 := mem_values.mpr hx
    have hurlValues : values (c.fromUrl sent.url.authority) x.1 = [] :=
      fromUrl_values.mpr fun heq => h.user r hr (heq ▸ hname) target sent.url htarget hurl
    have hcaller : values (req.headers.filter (carries ·.1)) x.1 = [] := by
      refine values_eq_nil.mpr fun y hy heq => ?_
      obtain ⟨hy, hcarries⟩ := List.mem_filter.mp hy
      exact h.caller r hr y hy hcarries (heq ▸ hname)
    have hnodup : (added.map (·.1)).Nodup := List.Nodup.of_map _ (names_of_added hadded ▸ h.distinct)
    have hcount := List.nodup_iff_count_le_one.mp hnodup x.1
    rw [← length_values] at hcount
    have hpos := List.length_pos_of_mem hmem
    obtain ⟨w, hw⟩ := List.length_eq_one_iff.mp (show (values added x.1).length = 1 by omega)
    rw [hvalues x.1 x.2 (mem_values.mpr (List.mem_append_right _ hx)), hurlValues, hcaller, hw]
    rw [hw, List.mem_singleton] at hmem
    rw [hmem]
    rfl
  · have hmem : x ∈ req.headers.filter (carries ·.1) ++ added :=
      List.mem_append_left _ (List.mem_filter.mpr ⟨hx, hcarries⟩)
    have hnone : values added x.1 = [] := by
      refine values_eq_nil.mpr fun y hy heq => ?_
      obtain ⟨r, hr, hn⟩ := registered_of_added hadded hy
      exact hother r hr (heq ▸ hn)
    rw [hvalues x.1 x.2 (mem_values.mpr hmem), hnone, List.append_nil, values_filter hcarries]

/-- The registered headers win over those of the caller exactly when no name is given twice. -/
theorem injectedWin_iff_noCollision (c : Client α) (registry : ProxyRegistry)
    (answer : Outgoing α → Except String Response)
    {token rest : String} {req : Request} {entry : ProxyEntry} {sent : Outgoing α}
    (hentry : registry.lookup token = some entry) (hreq : Received c req.headers)
    (hsent : (forward c registry answer token rest req).1 = some sent) :
    InjectedWin c entry req sent ↔ NoCollision c entry rest req :=
  ⟨InjectedWin.noCollision hentry hreq hsent, NoCollision.injectedWin hentry hreq hsent⟩

/-! A caller with credentials of its own -/

def searchEntry : ProxyEntry := ⟨"agent", "jina", "https://api.jina.ai", [("Authorization", "Bearer kept")], "tok"⟩

def searchRegistry : ProxyRegistry := oneProxy "https://api.jina.ai" [("Authorization", "Bearer kept")]

def searchRequest (headers : HeaderMap) : Request := ⟨"GET", ⟨"/p/tok/v1", none⟩, headers, .ok []⟩

theorem injectedWin_iff_noCollision_search : ∃ sent,
    (forward lowerCase searchRegistry (fun _ => .error "timeout") "tok" "v1"
      (searchRequest [("cookie", Utf8.encode "a")])).1 = some sent ∧
    (InjectedWin lowerCase searchEntry (searchRequest [("cookie", Utf8.encode "a")]) sent ↔
      NoCollision lowerCase searchEntry "v1" (searchRequest [("cookie", Utf8.encode "a")])) := by
  obtain ⟨sent, hsent⟩ : ∃ sent, (forward lowerCase searchRegistry (fun _ => .error "timeout") "tok" "v1"
      (searchRequest [("cookie", Utf8.encode "a")])).1 = some sent := ⟨_, rfl⟩
  refine ⟨sent, hsent, injectedWin_iff_noCollision lowerCase searchRegistry _ rfl (fun h hh => ?_) hsent⟩
  rw [List.mem_singleton.mp hh]
  exact ⟨rfl, rfl⟩

/-- What a caller sends as `Authorization` goes upstream, before what is registered. -/
theorem caller_authorization_sent : ∃ sent,
    (forward lowerCase searchRegistry (fun _ => .error "timeout") "tok" "v1"
      (searchRequest [("authorization", Utf8.encode "Bearer own")])).1 = some sent ∧
    values sent.headers "authorization" = [Utf8.encode "Bearer own", Utf8.encode "Bearer kept"] ∧
    ¬ InjectedWin lowerCase searchEntry (searchRequest [("authorization", Utf8.encode "Bearer own")]) sent := by
  refine ⟨_, rfl, rfl, fun h => ?_⟩
  have hvalues := h.injected ("Authorization", "Bearer kept") List.mem_cons_self "authorization"
    (Utf8.encode "Bearer kept") rfl rfl
  cases hvalues

end Nexal.ReverseProxy
