import Mathlib.Data.Set.Card
import Nexal.Lib.Lists
import Nexal.Proofs.TapeStore
import Nexal.Sanity.TapeEntry
import Nexal.Spec.TapeCommands

/-! What the tape commands can reach. They act on the tapes that refs lead to from the session's own, and on no other,
as long as the refs on the way write the ids as the database does. -/

namespace Nexal.TapeCommands

open Tape Relation

variable (rt : JsRuntime) (opts : TapeStoreOptions) {uuid : UuidType} (T : Tables uuid) (ctx : CommandContext)

def refs (tapeId : TapeId) : List String :=
  (Tape.read rt opts T.db tapeId).filterMap fun entry => refTapeId entry.toTapeEntryDraft

def Refers (tapeId tapeId' : TapeId) : Prop := ∃ text ∈ refs rt opts T tapeId, uuid.input text = some tapeId'

/-- There is a way to the tape from that of the session. -/
def Reachable (tapeId : TapeId) : Prop :=
  ∃ root, getSessionTapeRef T ctx.sessionKey = some root ∧ ReflTransGen (Refers rt opts T) root tapeId

/-- The refs of the reachable tapes are written as the database gives them back. -/
def CanonicalRefs : Prop :=
  ∀ tapeId, Reachable rt opts T ctx tapeId → ∀ text ∈ refs rt opts T tapeId, uuid.input text = some text

structure AccessControl : Prop where
  collected : ∃ ids, collectReachableTapes rt opts T ctx = .ok ids ∧ ids.Nodup ∧ ∀ id, id ∈ ids ↔
    Reachable rt opts T ctx id
  listed : ∃ ids : List TapeId, ids.Nodup ∧ (∀ id, id ∈ ids ↔ Reachable rt opts T ctx id) ∧
    tapes rt opts T ctx = .ok (listing ((ids.map (Tape.info T.db)).filter fun tape => 0 < tape.entries))
  shown : ∀ id rest, Reachable rt opts T ctx id → tape rt opts T ctx (id :: rest) = .ok (shown (Tape.info T.db id))
  paged : ∀ id rest offset limit, Reachable rt opts T ctx id → page (id :: rest) = (offset, limit) →
    offset ≤ int8Max →
    tapeEntries rt opts T ctx (id :: rest) =
      .ok (entriesPage (Tape.info T.db id) (Tape.readPage rt opts T.db id offset limit) offset limit)
  deletes : ∀ id rest, Reachable rt opts T ctx id → getSessionTapeRef T ctx.sessionKey ≠ some id →
    tapeDelete rt opts T ctx (id :: rest) = .ok (T.deleteRow id, deleted id)
  refused : ∀ id rest, ¬Reachable rt opts T ctx id → id ≠ "" →
    tape rt opts T ctx (id :: rest) = .ok (tapeNotFound id) ∧
      tapeEntries rt opts T ctx (id :: rest) = .ok (tapeNotFound id) ∧
      tapeDelete rt opts T ctx (id :: rest) = .ok (T, tapeNotFound id)
  /-- whatever is deleted, the session keeps its tape, with all that is in it -/
  kept : ∀ args T' result, tapeDelete rt opts T ctx args = .ok (T', result) →
    getSessionTapeRef T' ctx.sessionKey = getSessionTapeRef T ctx.sessionKey ∧
      ∀ id, getSessionTapeRef T ctx.sessionKey = some id →
        findTapeRecordById T'.db id = findTapeRecordById T.db id ∧ Tape.read rt opts T'.db id = Tape.read rt opts T.db id

variable {rt opts T ctx} {id root : TapeId} {text : String} {ids : List String}

/-! Ids -/

theorem getSessionTapeRef_canonical (h : getSessionTapeRef T ctx.sessionKey = some root) : uuid.input root = some root := by
  obtain ⟨tape, htape, hid⟩ := T.references _ (Lists.mem_of_lookup_eq_some h)
  obtain rfl : tape.id = root := hid
  exact T.ids tape htape

theorem Reachable.canonical (h : Reachable rt opts T ctx id) : uuid.input id = some id := by
  obtain ⟨root, hroot, hpath⟩ := h
  cases hpath with
  | refl => exact getSessionTapeRef_canonical hroot
  | tail _ hstep =>
    obtain ⟨text, -, htext⟩ := hstep
    exact uuid.input_input text id htext

theorem Reachable.ne_empty (h : Reachable rt opts T ctx id) : id ≠ "" := by
  rintro rfl
  have hempty := h.canonical
  rw [uuid.input_empty] at hempty
  cases hempty

theorem withTape_canonical {α : Type} {query : TapeId → α} (h : uuid.input id = some id) :
    withTape uuid id query = .ok (query id) := by
  rw [withTape, h]

theorem refsOf_canonical (h : uuid.input id = some id) : refsOf rt opts T id = .ok (refs rt opts T id) := by
  rw [refsOf, read, withTape_canonical h]
  rfl

theorem info_canonical (h : uuid.input id = some id) : info T id = .ok (Tape.info T.db id) := by
  rw [info, withTape_canonical h]
  unfold Tape.info
  cases findTapeRecordById T.db id <;> rfl

/-! The search -/

theorem follows_iff (hid : uuid.input id = some id) {next : String} :
    Search.Follows (refsOf rt opts T) id next ↔ next ∈ refs rt opts T id := by
  rw [Search.Follows, refsOf_canonical hid]
  simp

theorem reach_iff (hrefs : CanonicalRefs rt opts T ctx) (hroot : getSessionTapeRef T ctx.sessionKey = some root) :
    Search.Reach (refsOf rt opts T) root id ↔ Reachable rt opts T ctx id := by
  constructor
  · intro h
    induction h with
    | refl => exact ⟨root, hroot, .refl⟩
    | tail _ hstep ih =>
      have hmem := (follows_iff ih.canonical).mp hstep
      obtain ⟨root', hroot', hpath⟩ := ih
      exact ⟨root', hroot', hpath.tail ⟨_, hmem, hrefs _ ⟨root', hroot', hpath⟩ _ hmem⟩⟩
  · rintro ⟨root', hroot', hpath⟩
    obtain rfl : root' = root := Option.some.inj (hroot'.symm.trans hroot)
    induction hpath with
    | refl => exact .refl
    | @tail id next hpath hstep ih =>
      have hreach : Reachable rt opts T ctx id := ⟨_, hroot, hpath⟩
      obtain ⟨text, hmem, htext⟩ := hstep
      obtain rfl : text = next := Option.some.inj ((hrefs id hreach text hmem).symm.trans htext)
      exact ih.tail ((follows_iff hreach.canonical).mpr hmem)

theorem length_lt (hfew : {id | Reachable rt opts T ctx id}.encard < 500) (hnodup : ids.Nodup)
    (hids : ∀ id ∈ ids, Reachable rt opts T ctx id) : ids.length < 500 := by
  have hsub : (ids.toFinset : Set String) ⊆ {id | Reachable rt opts T ctx id} := fun id hid =>
    hids id (List.mem_toFinset.mp hid)
  have hle := (Set.encard_le_encard hsub).trans_lt hfew
  rw [Set.encard_coe_eq_coe_finsetCard, List.toFinset_card_of_nodup hnodup] at hle
  exact_mod_cast hle

theorem encard_lt (hlength : ids.length < 500) (hids : ∀ id, Reachable rt opts T ctx id → id ∈ ids) :
    {id | Reachable rt opts T ctx id}.encard < 500 := by
  have hsub : {id | Reachable rt opts T ctx id} ⊆ (ids.toFinset : Set String) := fun id hid =>
    List.mem_toFinset.mpr (hids id hid)
  refine (Set.encard_le_encard hsub).trans_lt ?_
  rw [Set.encard_coe_eq_coe_finsetCard]
  exact_mod_cast ids.toFinset_card_le.trans_lt hlength

theorem collect_ok (hrefs : CanonicalRefs rt opts T ctx) (hfew : {id | Reachable rt opts T ctx id}.encard < 500) :
    ∃ ids, collectReachableTapes rt opts T ctx = .ok ids ∧ ids.Nodup ∧ ∀ id, id ∈ ids ↔
      Reachable rt opts T ctx id := by
  rw [collectReachableTapes]
  cases hroot : getSessionTapeRef T ctx.sessionKey with
  | none =>
    refine ⟨[], rfl, List.nodup_nil, fun id => ⟨fun h => absurd h List.not_mem_nil, fun ⟨root, hroot', _⟩ => ?_⟩⟩
    rw [hroot] at hroot'
    cases hroot'
  | some root =>
    have hinv := Search.inv_start (refsOf rt opts T) root
    cases hsearch : Search.search (refsOf rt opts T) 500 ⟨[root], [root]⟩ with
    | error e =>
      obtain ⟨id, hreach, herr⟩ := hinv.search_error hsearch
      rw [refsOf_canonical ((reach_iff hrefs hroot).mp hreach).canonical] at herr
      cases herr
    | ok ids =>
      obtain ⟨hnodup, hstart, hreach, hclosed⟩ := hinv.search_ok hsearch
      have hids : ∀ id ∈ ids, Reachable rt opts T ctx id := fun id hid => (reach_iff hrefs hroot).mp (hreach id hid)
      have hclosed := hclosed (length_lt hfew hnodup hids)
      refine ⟨ids, hsearch, hnodup, fun id => ⟨hids id, fun hid => ?_⟩⟩
      exact Search.mem_of_closed hstart hclosed ((reach_iff hrefs hroot).mpr hid)

theorem canonicalRefs_of_collect (hfew : {id | Reachable rt opts T ctx id}.encard < 500)
    (hcollect : collectReachableTapes rt opts T ctx = .ok ids) (hnodup : ids.Nodup)
    (hids : ∀ id, id ∈ ids ↔ Reachable rt opts T ctx id) : CanonicalRefs rt opts T ctx := by
  intro id hreach text hmem
  have ⟨root, hroot, _⟩ := hreach
  rw [collectReachableTapes, hroot] at hcollect
  obtain ⟨-, -, -, hclosed⟩ := (Search.inv_start (refsOf rt opts T) root).search_ok hcollect
  obtain ⟨as, has, hin⟩ := hclosed (length_lt hfew hnodup fun id hid => (hids id).mp hid) id ((hids id).mpr hreach)
  rw [refsOf_canonical hreach.canonical] at has
  obtain rfl := Except.ok.inj has
  exact ((hids text).mp (hin text hmem)).canonical

/-! The commands -/

theorem require_mem (hcollect : collectReachableTapes rt opts T ctx = .ok ids) (hmem : text ∈ ids) (hne : text ≠ "") :
    requireAllowedTape rt opts T ctx (some text) = .ok (.ok text) := by
  rw [requireAllowedTape, if_neg hne, hcollect]
  show (if text ∈ ids then pure (Except.ok text) else pure (.error (tapeNotFound text))) = _
  rw [if_pos hmem]
  rfl

theorem require_refused (hcollect : collectReachableTapes rt opts T ctx = .ok ids)
    (hids : ∀ id, id ∈ ids ↔ Reachable rt opts T ctx id) (hid : ¬Reachable rt opts T ctx id) (hne : id ≠ "") :
    requireAllowedTape rt opts T ctx (some id) = .ok (.error (tapeNotFound id)) := by
  rw [requireAllowedTape, if_neg hne, hcollect]
  show (if id ∈ ids then pure (Except.ok id) else pure (.error (tapeNotFound id))) = _
  rw [if_neg fun hmem => hid ((hids id).mp hmem)]
  rfl

theorem mapM_info (h : ∀ id ∈ ids, uuid.input id = some id) : ids.mapM (info T) = .ok (ids.map (Tape.info T.db)) := by
  induction ids with
  | nil => rfl
  | cons id ids ih =>
    rw [List.mapM_cons, info_canonical (h id List.mem_cons_self), ih fun id' hid' => h id' (List.mem_cons_of_mem id hid')]
    rfl

theorem findTape_delete {db : Db} {other : TapeId} (hne : id ≠ other) :
    findTapeRecordById (Tape.delete other db).1 id = findTapeRecordById db id := by
  unfold Tape.delete
  split
  · rfl
  · rename_i row hrow
    obtain rfl := find_id hrow
    rw [findTapeRecordById, findTapeRecordById, List.filter_filter]
    refine congrArg List.head? (List.filter_congr fun r _ => ?_)
    by_cases hr : r.id = id
    · simp [hr, hne]
    · simp [hr]

theorem entryRows_delete {db : Db} {other : TapeId} (hne : id ≠ other) :
    entryRows (Tape.delete other db).1 id = entryRows db id := by
  unfold Tape.delete
  split
  · rfl
  · rename_i row hrow
    obtain rfl := find_id hrow
    have hrows := entryRows_without db row.id id
    rwa [if_neg hne] at hrows

theorem read_delete {db : Db} {other : TapeId} (hne : id ≠ other) :
    Tape.read rt opts (Tape.delete other db).1 id = Tape.read rt opts db id := by
  rw [Tape.read, findTape_delete hne, Tape.read]
  cases hfind : findTapeRecordById db id with
  | none => rfl
  | some row =>
    obtain rfl := find_id hfind
    dsimp only
    rw [entryRows_delete hne]

theorem session_deleteRow {key : String} (h : getSessionTapeRef T key = some root) (hne : root ≠ id) :
    getSessionTapeRef (T.deleteRow id) key = some root := by
  rw [getSessionTapeRef, List.lookup_eq_some_iff] at h ⊢
  obtain ⟨front, back, heq, hfront⟩ := h
  refine ⟨front.filter (·.2 ≠ id), back.filter (·.2 ≠ id), ?_,
    fun row hrow => hfront row (List.mem_of_mem_filter hrow)⟩
  show T.sessionTapes.filter (·.2 ≠ id) = _
  rw [heq, List.filter_append, List.filter_cons_of_pos (by simpa using hne)]

theorem require_ok {arg : Option String} {handle : String} (h : requireAllowedTape rt opts T ctx arg = .ok (.ok handle)) :
    ∃ ids, collectReachableTapes rt opts T ctx = .ok ids ∧ handle ∈ ids := by
  cases arg with
  | none => cases h
  | some tapeId =>
    rw [requireAllowedTape] at h
    split_ifs at h with hempty
    · cases h
    · cases hcollect : collectReachableTapes rt opts T ctx with
      | error e =>
        rw [hcollect] at h
        cases h
      | ok ids =>
        rw [hcollect] at h
        change (if tapeId ∈ ids then pure (Except.ok tapeId) else pure (.error (tapeNotFound tapeId))) =
          Except.ok (Except.ok handle) at h
        split_ifs at h with hmem
        · obtain rfl := Except.ok.inj (Except.ok.inj h)
          exact ⟨ids, rfl, hmem⟩
        · cases Except.ok.inj h

/-- What it deletes was found, and is written otherwise than the session's own. -/
theorem tapeDelete_cases {args : List String} {T' : Tables uuid} {result : CommandResult}
    (h : tapeDelete rt opts T ctx args = .ok (T', result)) : T' = T ∨ ∃ ids handle id,
      collectReachableTapes rt opts T ctx = .ok ids ∧ handle ∈ ids ∧
        getSessionTapeRef T ctx.sessionKey ≠ some handle ∧
        uuid.input handle = some id ∧ T' = T.deleteRow id := by
  rw [tapeDelete] at h
  cases hrequire : requireAllowedTape rt opts T ctx args.head? with
  | error e =>
    rw [hrequire] at h
    cases h
  | ok allowed =>
    rw [hrequire] at h
    cases allowed with
    | error refusal =>
      left
      exact (congrArg Prod.fst (Except.ok.inj h)).symm
    | ok handle =>
      change (if getSessionTapeRef T ctx.sessionKey = some handle then pure (T, currentTape)
        else (do pure (← delete T handle, deleted handle))) = Except.ok (T', result) at h
      split_ifs at h with hcurrent
      · left
        exact (congrArg Prod.fst (Except.ok.inj h)).symm
      · right
        obtain ⟨ids, hcollect, hmem⟩ := require_ok hrequire
        cases hinput : uuid.input handle with
        | none =>
          rw [delete, withTape, hinput] at h
          cases h
        | some id =>
          rw [delete, withTape, hinput] at h
          exact ⟨ids, handle, id, hcollect, hmem, hcurrent, hinput, (congrArg Prod.fst (Except.ok.inj h)).symm⟩

/-- Another way to write the id of the session's tape gets past the check. -/
theorem tapeDelete_current (hcollect : collectReachableTapes rt opts T ctx = .ok ids)
    (hroot : getSessionTapeRef T ctx.sessionKey = some root) (hmem : text ∈ ids) (htext : uuid.input text = some root)
    (hother : text ≠ root) : tapeDelete rt opts T ctx [text] = .ok (T.deleteRow root, deleted text) := by
  have hne : text ≠ "" := by
    rintro rfl
    rw [uuid.input_empty] at htext
    cases htext
  rw [tapeDelete, List.head?_cons, require_mem hcollect hmem hne]
  show (if getSessionTapeRef T ctx.sessionKey = some text then pure (T, currentTape)
    else (do pure (← delete T text, deleted text))) = _
  rw [if_neg fun heq => hother (Option.some.inj (heq.symm.trans hroot)), delete, withTape, htext]
  rfl

theorem accessControl_of_canonicalRefs (hrefs : CanonicalRefs rt opts T ctx)
    (hfew : {id | Reachable rt opts T ctx id}.encard < 500) : AccessControl rt opts T ctx := by
  obtain ⟨ids, hcollect, hnodup, hids⟩ := collect_ok hrefs hfew
  have hcanonical : ∀ id ∈ ids, uuid.input id = some id := fun id hid => ((hids id).mp hid).canonical
  have hallowed {id : TapeId} (hid : Reachable rt opts T ctx id) := require_mem hcollect ((hids id).mpr hid) hid.ne_empty
  refine ⟨⟨ids, hcollect, hnodup, hids⟩, ⟨ids, hnodup, hids, ?_⟩, fun id rest hid => ?_,
    fun id rest offset limit hid hpage hoffset => ?_,
    fun id rest hid hother => ?_, fun id rest hid hne => ⟨?_, ?_, ?_⟩, fun args T' result h => ?_⟩
  · rw [tapes, hcollect]
    show (do let infos ← ids.mapM (info T); pure (listing (infos.filter fun tape => 0 < tape.entries))) = _
    rw [mapM_info hcanonical]
    rfl
  · rw [tape, List.head?_cons, hallowed hid]
    show (do pure (shown (← info T id))) = _
    rw [info_canonical hid.canonical]
    rfl
  · rw [tapeEntries, List.head?_cons, hallowed hid, hpage]
    show (do
      let tape ← info T id
      let entries ← readPage rt opts T id offset limit
      pure (entriesPage tape entries offset limit)) = _
    rw [info_canonical hid.canonical, readPage, if_neg (Nat.not_lt.mpr hoffset), withTape_canonical hid.canonical]
    rfl
  · rw [tapeDelete, List.head?_cons, hallowed hid]
    show (if getSessionTapeRef T ctx.sessionKey = some id then pure (T, currentTape)
      else (do pure (← delete T id, deleted id))) = _
    rw [if_neg hother, delete, withTape_canonical hid.canonical]
    rfl
  · rw [tape, List.head?_cons, require_refused hcollect hids hid hne]
    rfl
  · rw [tapeEntries, List.head?_cons, require_refused hcollect hids hid hne]
    rfl
  · rw [tapeDelete, List.head?_cons, require_refused hcollect hids hid hne]
    rfl
  · rcases tapeDelete_cases h with rfl | ⟨ids', handle, id, hcollect', hmem, hother, hinput, rfl⟩
    · exact ⟨rfl, fun _ _ => ⟨rfl, rfl⟩⟩
    · obtain rfl := Except.ok.inj (hcollect'.symm.trans hcollect)
      obtain rfl := Option.some.inj ((hcanonical handle hmem).symm.trans hinput)
      have ⟨root, hroot, _⟩ := (hids handle).mp hmem
      have hne : root ≠ handle := fun heq => hother (heq ▸ hroot)
      refine ⟨(session_deleteRow hroot hne).trans hroot.symm, fun id hid => ?_⟩
      obtain rfl := Option.some.inj (hroot.symm.trans hid)
      exact ⟨findTape_delete hne, read_delete hne⟩

theorem access_control_iff (hfew : {id | Reachable rt opts T ctx id}.encard < 500) :
    AccessControl rt opts T ctx ↔ CanonicalRefs rt opts T ctx := by
  refine ⟨fun h => ?_, fun hrefs => accessControl_of_canonicalRefs hrefs hfew⟩
  obtain ⟨ids, hcollect, hnodup, hids⟩ := h.collected
  exact canonicalRefs_of_collect hfew hcollect hnodup hids

/-! Two sessions -/

def rootId : TapeId := "018f0000-0000-7000-8000-000000000001"

def childId : TapeId := "018f0000-0000-7000-8000-000000000002"

def uuids : UuidType where
  input text := if text ∈ [rootId, childId] then some text else none
  input_input := fun text id h => by
    split_ifs at h with hmem
    obtain rfl := Option.some.inj h
    exact if_pos hmem
  input_empty := by decide

def refRow (tapeId : TapeId) (entryId : ℕ) (target : Json) : TapeEntryRow :=
  ⟨tapeId, entryId, .ref, none, none, [("ref", .obj [("type", .str "tape"), ("tapeId", target)])], [], "", 0⟩

/-- A worker's tape linked with its parent's both ways, and refs to nothing. -/
def linked : Tables uuids where
  db := ⟨[⟨rootId, 3, 0⟩, ⟨childId, 1, 0⟩],
    [refRow rootId 1 (.str childId), refRow rootId 2 (.num 7), refRow rootId 3 (.str rootId),
      refRow childId 1 (.str rootId)], []⟩
  sessionTapes := [("ws:default", rootId)]
  ids := by simp [uuids]
  references := by simp

def session : CommandContext := ⟨"ws", "default"⟩

theorem linked_reachable {id : TapeId} (h : Reachable zeroBytesRuntime ⟨none, 8192⟩ linked session id) :
    id ∈ [rootId, childId] := by
  obtain ⟨root, hroot, hpath⟩ := h
  obtain rfl : rootId = root := Option.some.inj hroot
  induction hpath with
  | refl => exact List.mem_cons_self
  | tail _ hstep =>
    obtain ⟨text, -, htext⟩ := hstep
    change (if text ∈ [rootId, childId] then some text else none) = _ at htext
    split_ifs at htext with hmem
    exact Option.some.inj htext ▸ hmem

theorem linked_access : AccessControl zeroBytesRuntime ⟨none, 8192⟩ linked session := by
  have hroot : refs zeroBytesRuntime ⟨none, 8192⟩ linked rootId = [childId, rootId] := by decide
  have hchild : refs zeroBytesRuntime ⟨none, 8192⟩ linked childId = [rootId] := by decide
  have hfew := encard_lt (T := linked) (by decide) fun _ hid => linked_reachable hid
  refine (access_control_iff hfew).mpr fun id hid text htext => ?_
  have hmem : text ∈ [rootId, childId] := by
    rcases List.mem_pair.mp (linked_reachable hid) with rfl | rfl
    · rw [hroot] at htext
      exact List.mem_pair.mpr (List.mem_pair.mp htext).symm
    · rw [hchild] at htext
      exact List.mem_pair.mpr (.inl (List.mem_singleton.mp htext))
  exact if_pos hmem

def malformed : Tables uuids where
  db := ⟨[⟨rootId, 1, 0⟩], [refRow rootId 1 (.str "x")], []⟩
  sessionTapes := [("ws:default", rootId)]
  ids := by simp [uuids]
  references := by simp

theorem malformed_refused : {id | Reachable zeroBytesRuntime ⟨none, 8192⟩ malformed session id}.encard < 500 ∧
    ¬AccessControl zeroBytesRuntime ⟨none, 8192⟩ malformed session := by
  have hrefs : refs zeroBytesRuntime ⟨none, 8192⟩ malformed rootId = ["x"] := by decide
  have hsession : getSessionTapeRef malformed session.sessionKey = some rootId := rfl
  have hroot : refsOf zeroBytesRuntime ⟨none, 8192⟩ malformed rootId = .ok ["x"] := by
    rw [refsOf_canonical (by decide), hrefs]
  have hx : refsOf zeroBytesRuntime ⟨none, 8192⟩ malformed "x" = .error (.invalidUuid "x") := rfl
  refine ⟨encard_lt (show [rootId].length < 500 by decide) fun id ⟨root, hroot', hpath⟩ => ?_, fun h => ?_⟩
  · obtain rfl : rootId = root := Option.some.inj hroot'
    cases hpath.cases_head with
    | inl heq => exact List.mem_singleton.mpr heq.symm
    | inr hstep =>
      obtain ⟨next, ⟨text, htext, hinput⟩, -⟩ := hstep
      rw [hrefs, List.mem_singleton] at htext
      subst htext
      cases hinput
  · obtain ⟨ids, hcollect, -⟩ := h.collected
    rw [collectReachableTapes, hsession] at hcollect
    dsimp only at hcollect
    rw [Search.search, dif_pos (by decide), hroot] at hcollect
    change Search.search _ 500 ⟨["x"], [rootId, "x"]⟩ = _ at hcollect
    rw [Search.search, dif_pos (by decide), hx] at hcollect
    cases hcollect

end Nexal.TapeCommands

/-! The refs that the program writes itself. In every store that serial calls have built, the tape commands are confined
to what is reachable if each appended ref has its id from the database, as those of `linkWorkerTape` do. -/

namespace Nexal.TapeCommands

open Tape

variable {rt : JsRuntime} {opts : TapeStoreOptions} {uuid : UuidType} {T : Tables uuid} {ctx : CommandContext}
  {log : Log} {op : Op} {ops : List Op} {t : TapeId} {d : TapeEntryDraft}

def drafts : Op → List TapeEntryDraft
  | .append _ entries _ => entries.toList
  | .handoff _ name state date _ => [anchorDraft name state date]
  | .create _ _ | .reset _ | .delete _ => []

theorem refTapeId_normalize (now : JsNumber) (d : TapeEntryDraft) :
    refTapeId (normalizeTapeEntryDraft rt now d) = refTapeId d := by
  cases hkind : d.kind with
  | tool_call => simp [normalizeTapeEntryDraft, normalizeLegacyToolCallEntry, refTapeId, hkind]
  | message =>
    rw [normalizeTapeEntryDraft, hkind]
    dsimp only
    split
    · split_ifs
      · simp [refTapeId, hkind]
      · rfl
    · rfl
  | _ => rw [normalizeTapeEntryDraft, hkind]

theorem refTapeId_readBack (d : TapeEntryDraft) : refTapeId (readBack rt opts d) = refTapeId d := by
  unfold readBack
  split
  · rw [refTapeId, refTapeId, Record.get_set_of_ne _ _ (by decide)]
  · rfl

theorem mem_note {ok : Bool} (h : d ∈ log.note rt op ok t) :
    d ∈ log t ∨ ∃ e ∈ drafts op, ∃ now, d = normalizeTapeEntryDraft rt now e := by
  unfold Log.note at h
  split_ifs at h
  · cases op with
    | append tape entries now =>
      dsimp only at h
      by_cases ht : t = tape
      · subst ht
        rw [Function.update_self, List.mem_append] at h
        refine h.imp_right fun h => ?_
        obtain ⟨e, he, rfl⟩ := List.mem_map.mp h
        exact ⟨e, he, now, rfl⟩
      · rw [Function.update_of_ne ht] at h
        exact .inl h
    | handoff tape name state date now =>
      dsimp only at h
      by_cases ht : t = tape
      · subst ht
        rw [Function.update_self, List.mem_append, List.mem_singleton] at h
        exact h.imp_right fun h => ⟨_, List.mem_cons_self, now, h⟩
      · rw [Function.update_of_ne ht] at h
        exact .inl h
    | create tape _ | reset tape | delete tape =>
      dsimp only at h
      by_cases ht : t = tape
      · subst ht
        rw [Function.update_self] at h
        cases h
      · rw [Function.update_of_ne ht] at h
        exact .inl h
  · exact .inl h

/-- The refs of the log are those of the calls. -/
theorem refTapeId_log {text : String} (hd : d ∈ (serialRun rt opts ops).2 t) (href : refTapeId d = some text) :
    ∃ op ∈ ops, ∃ e ∈ drafts op, refTapeId e = some text := by
  induction ops using List.reverseRecOn with
  | nil => cases hd
  | append_singleton ops op ih =>
    rw [serialRun_append] at hd
    rcases mem_note hd with hd | ⟨e, he, now, rfl⟩
    · obtain ⟨op', hop', hrest⟩ := ih hd
      exact ⟨op', List.mem_append_left _ hop', hrest⟩
    · rw [refTapeId_normalize] at href
      exact ⟨op, List.mem_append_right _ List.mem_cons_self, e, he, href⟩

theorem canonicalRefs_serialRun (hT : T.db = (serialRun rt opts ops).1)
    (hops : ∀ op ∈ ops, ∀ d ∈ drafts op, ∀ text, refTapeId d = some text → uuid.input text = some text) :
    CanonicalRefs rt opts T ctx := by
  intro id _ text htext
  rw [refs, hT, (refines_serialRun ops).read_eq] at htext
  obtain ⟨entry, hentry, href⟩ := List.mem_filterMap.mp htext
  obtain ⟨i, hi, rfl⟩ := List.mem_mapIdx.mp hentry
  obtain ⟨op, hop, e, he, hetext⟩ := refTapeId_log (List.getElem_mem hi) ((refTapeId_readBack _).symm.trans href)
  exact hops op hop e he text hetext

theorem linkWorkerTape_canonical {row : WorkerRow} {parentTape childTape : TapeId} {date : String} {now : JsNumber}
    (hparent : uuid.input parentTape = some parentTape) (hchild : uuid.input childTape = some childTape)
    (hop : op ∈ linkWorkerTape row parentTape childTape date now) (hd : d ∈ drafts op) {text : String}
    (href : refTapeId d = some text) : uuid.input text = some text := by
  have hlink {target relation : String} {«meta» entryMeta : Record}
      (h : refTapeId (linkDraft target relation «meta» entryMeta date) = some text) : text = target := by
    have hget : (Record.get (linkDraft target relation «meta» entryMeta date).payload "ref").bind (·.field "tapeId") =
        some (.str target) := by
      simp [linkDraft, Record.get_cons, Json.field]
    have hkind : (linkDraft target relation «meta» entryMeta date).kind = .ref := rfl
    rw [refTapeId, if_pos hkind, hget] at h
    dsimp only at h
    split_ifs at h
    exact (Option.some.inj h).symm
  rcases List.mem_pair.mp hop with rfl | rfl
  · obtain rfl := List.mem_singleton.mp hd
    exact hlink href ▸ hchild
  · obtain rfl := List.mem_singleton.mp hd
    exact hlink href ▸ hparent

theorem serialRun_access (hT : T.db = (serialRun rt opts ops).1)
    (hops : ∀ op ∈ ops, ∀ d ∈ drafts op, ∀ text, refTapeId d = some text → uuid.input text = some text)
    (hfew : {id | Reachable rt opts T ctx id}.encard < 500) : AccessControl rt opts T ctx :=
  accessControl_of_canonicalRefs (canonicalRefs_serialRun hT hops) hfew

end Nexal.TapeCommands
