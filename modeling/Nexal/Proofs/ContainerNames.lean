import Nexal.Sanity.WarmPool

/-! Names of containers and paths of sockets. Whatever is not a letter, a digit, a dot or a hyphen becomes an
underscore, so different names can have one container; `ensure` then returns the one that is there. -/

namespace Nexal.Containers

open Gateway (containerSocketPath)

def blurred (c : Char) : Bool := !(c.isAlphanum || c = '.' || c = '-')

/-- The names differ in length, or at some place by two characters not both of which become underscores. -/
def ToldApart (n m : String) : Prop :=
  n.toList.length ≠ m.toList.length ∨
    ∃ (i : ℕ) (c d : Char), n.toList[i]? = some c ∧ m.toList[i]? = some d ∧ c ≠ d ∧
      ¬ (blurred c = true ∧ blurred d = true)

/-! Sanitizing -/

theorem sanitize_of_blurred {c : Char} (h : blurred c = true) : sanitize c = '_' := by
  rw [sanitize]
  split_ifs with hallowed
  · rcases hallowed with halnum | rfl | rfl | rfl
    · simp [blurred, halnum] at h
    · rfl
    · cases h
    · cases h
  · rfl

theorem sanitize_of_not_blurred {c : Char} (h : blurred c = false) : sanitize c = c ∧ c ≠ '_' := by
  have hallowed : c.isAlphanum = true ∨ c = '.' ∨ c = '-' := by
    simpa only [blurred, Bool.not_eq_false', Bool.or_eq_true, decide_eq_true_eq, or_assoc] using h
  refine ⟨if_pos ?_, ?_⟩
  · rcases hallowed with halnum | rfl | rfl
    · exact Or.inl halnum
    · exact Or.inr (Or.inr (Or.inl rfl))
    · exact Or.inr (Or.inr (Or.inr rfl))
  · rintro rfl
    rcases hallowed with halnum | heq | heq
    · cases halnum
    · cases heq
    · cases heq

theorem sanitize_eq_iff (c d : Char) : sanitize c = sanitize d ↔ c = d ∨ (blurred c = true ∧ blurred d = true) := by
  constructor
  · intro h
    cases hc : blurred c with
    | true =>
      cases hd : blurred d with
      | true => exact Or.inr ⟨rfl, rfl⟩
      | false =>
        obtain ⟨hsame, hne⟩ := sanitize_of_not_blurred hd
        rw [sanitize_of_blurred hc, hsame] at h
        exact absurd h.symm hne
    | false =>
      obtain ⟨hsame, hne⟩ := sanitize_of_not_blurred hc
      cases hd : blurred d with
      | true =>
        rw [sanitize_of_blurred hd, hsame] at h
        exact absurd h hne
      | false =>
        rw [hsame, (sanitize_of_not_blurred hd).1] at h
        exact Or.inl h
  · rintro (rfl | ⟨hc, hd⟩)
    · rfl
    · rw [sanitize_of_blurred hc, sanitize_of_blurred hd]

theorem map_sanitize_eq_iff (n m : String) : n.map sanitize = m.map sanitize ↔ ¬ ToldApart n m := by
  rw [← String.toList_inj, String.toList_map, String.toList_map]
  constructor
  · rintro h (hlen | ⟨i, c, d, hc, hd, hne, hkept⟩)
    · have hlen' := congrArg List.length h
      rw [List.length_map, List.length_map] at hlen'
      exact hlen hlen'
    · have hi := congrArg (fun l => l[i]?) h
      simp only [List.getElem?_map, hc, hd, Option.map_some, Option.some.injEq] at hi
      exact ((sanitize_eq_iff c d).mp hi).elim hne hkept
  · intro h
    have hlen : n.toList.length = m.toList.length := by
      by_contra hne
      exact h (Or.inl hne)
    refine List.ext_getElem? fun i => ?_
    rw [List.getElem?_map, List.getElem?_map]
    by_cases hi : i < n.toList.length
    · have hn := List.getElem?_eq_getElem hi
      have hm := List.getElem?_eq_getElem (hlen ▸ hi)
      rw [hn, hm, Option.map_some, Option.map_some, Option.some.injEq, sanitize_eq_iff]
      by_contra hno
      rw [not_or] at hno
      exact h (Or.inr ⟨i, _, _, hn, hm, hno.1, hno.2⟩)
    · rw [List.getElem?_eq_none (Nat.not_lt.mp hi), List.getElem?_eq_none (hlen ▸ Nat.not_lt.mp hi)]

theorem deriveContainerName_eq_iff (d : SpawnDefaults) (n m : String) :
    deriveContainerName d n = deriveContainerName d m ↔ ¬ ToldApart n m := by
  rw [deriveContainerName, deriveContainerName, String.append_right_inj, map_sanitize_eq_iff]

theorem containerSocketPath_eq_iff (n m : String) : containerSocketPath n = containerSocketPath m ↔ ¬ ToldApart n m := by
  have hpath : ∀ k, containerSocketPath k = "/run/nexal/proxy/" ++ k.map sanitize ++ ".socket" := fun _ => rfl
  rw [hpath, hpath, String.append_left_inj, String.append_right_inj, map_sanitize_eq_iff]

/-! Sharing a container -/

/-- A spawn with the first name and one with the second, both left to the backend, have got one container. -/
def Shared (cfg : Config) (s : State) (n m : String) : Prop :=
  ∃ (i j : ℕ) (call call' : Call) (r r' : SpawnRequest) (h h' : ContainerHandle),
    i ≠ j ∧ s.calls[i]? = some call ∧ s.calls[j]? = some call' ∧
    (call.op = .spawn r ∧ r.name = n ∧ ¬ TakesWarm cfg r call.found ∧ call.given = some h) ∧
    (call'.op = .spawn r' ∧ r'.name = m ∧ ¬ TakesWarm cfg r' call'.found ∧ call'.given = some h') ∧
      h.container = h'.container

/-- Two spawns left to the backend that have one container have one container name. -/
theorem not_shared_of_toldApart {cfg : Config} {s : State} {n m : String} (hwf : Wf cfg s) (h : ToldApart n m) :
    ¬ Shared cfg s n m := by
  rintro ⟨i, j, call, call', r, r', handle, handle', -, hi, hj, ⟨hop, rfl, hcold, hgiven⟩,
    ⟨hop', rfl, hcold', hgiven'⟩, hsame⟩
  obtain ⟨⟨c, hc, hname⟩, r₁, hop₁, hderived⟩ := (hwf.calls i call hi).given handle hgiven
  obtain ⟨⟨c', hc', hname'⟩, r₂, hop₂, hderived'⟩ := (hwf.calls j call' hj).given handle' hgiven'
  cases hop.symm.trans hop₁
  cases hop'.symm.trans hop₂
  rw [hsame, hc'] at hc
  cases hc
  refine (deriveContainerName_eq_iff cfg.spawnDefaults r.name r'.name).mp ?_ h
  rw [← hderived hcold, ← hderived' hcold', ← hname, ← hname']

variable {cfg : Config} {s : State} {i : ℕ} {call : Call} {spec : ContainerSpec} {now : String}

theorem step_found {k : ℕ} (hi : s.calls[i]? = some call) (hphase : call.phase = .ensuring (.checking spec))
    (hfind : find s.made spec.name = some k) :
    step cfg s (.go i now true) = some (s.goto i call (.ensuring (.starting spec))) := by
  rw [step, hi, Option.bind_some, go.eq_def, hphase]
  simp only [Ensure.go, if_true, hfind, Option.isSome_some, Option.map_some]
  rfl

theorem step_started {k : ℕ} (hi : s.calls[i]? = some call) (hphase : call.phase = .ensuring (.starting spec))
    (hfind : find s.made spec.name = some k) :
    step cfg s (.go i now true) = some (ensured s i call (s.made, .returned ⟨spec.name, k⟩)) := by
  rw [step, hi, Option.bind_some, go.eq_def, hphase]
  simp only [Ensure.go, if_true, hfind, Option.map_some]

def customSpawn (name : String) : SpawnRequest := ⟨name, some "nexal-desktop", ∅, ∅, []⟩

/-- The first spawn creates the container, the second finds it. -/
theorem shared_of_not_toldApart (cfg : Config) {n m : String} (h : ¬ ToldApart n m) :
    ∃ (acts : List Act) (s : State),
      Runs.run (step cfg) (.init ⟨[], List.nodup_nil⟩) acts = some s ∧ Shared cfg s n m := by
  have hfind : find [⟨spawnSpec cfg.spawnDefaults (customSpawn n), "", .call 0, true⟩]
      (spawnSpec cfg.spawnDefaults (customSpawn n)).name = some 0 := by simp [find, Container.name]
  have hfind' : find [⟨spawnSpec cfg.spawnDefaults (customSpawn n), "", .call 0, true⟩]
      (spawnSpec cfg.spawnDefaults (customSpawn m)).name = some 0 :=
    (congrArg (find _) ((deriveContainerName_eq_iff cfg.spawnDefaults n m).mpr h).symm).trans hfind
  have hcold : ∀ (k : String) (found : List ContainerHandle), ¬ TakesWarm cfg (customSpawn k) found := by
    rintro k found ⟨hplain, -⟩
    cases hplain
  -- checked, created and started; then found and started
  refine ⟨[.spawn (customSpawn n), .go 0 "" true, .go 0 "" true, .go 0 "" true, .spawn (customSpawn m), .go 1 "" true,
    .go 1 "" true], _,
    Runs.run_of_step rfl <| Runs.run_of_step rfl <| Runs.run_of_step rfl <| Runs.run_of_step (step_started rfl rfl hfind) <|
      Runs.run_of_step rfl <| Runs.run_of_step (step_found rfl rfl hfind') <|
        Runs.run_of_step (step_started rfl rfl hfind') rfl, ?_⟩
  exact ⟨0, 1, _, _, _, _, _, _, Nat.zero_ne_one, rfl, rfl, ⟨rfl, rfl, hcold n _, rfl⟩,
    ⟨rfl, rfl, hcold m _, rfl⟩, rfl⟩

/-- For any two names: the container names differ, the paths of proxies' sockets differ, and no run of the
gateway lets two spawns the backend serves share a container, exactly if the names are told apart. -/
theorem isolated_iff_toldApart (cfg : Config) (n m : String) :
    (deriveContainerName cfg.spawnDefaults n ≠ deriveContainerName cfg.spawnDefaults m ↔ ToldApart n m) ∧
      (containerSocketPath n ≠ containerSocketPath m ↔ ToldApart n m) ∧
      ((∀ (host : Host) (acts : List Act) (s : State), Runs.run (step cfg) (.init host) acts = some s →
        ¬ Shared cfg s n m) ↔
        ToldApart n m) := by
  refine ⟨?_, ?_, ?_⟩
  · rw [Ne, deriveContainerName_eq_iff, not_not]
  · rw [Ne, containerSocketPath_eq_iff, not_not]
  · constructor
    · intro hall
      by_contra hnot
      obtain ⟨acts, s, hrun, hshared⟩ := shared_of_not_toldApart cfg hnot
      exact hall _ acts s hrun hshared
    · intro h host acts s hrun
      exact not_shared_of_toldApart (wf_run hrun) h

def defaults : SpawnDefaults := ⟨"nexal", "nexal-agent", none, none, none, true, "nexal-worker-", none⟩

/-- The names "a b" and "a_b" are different, have one container name and one socket, and come to share a
container. -/
theorem spaced_name_collides :
    (¬ ∀ (d : SpawnDefaults) (n m : String), n ≠ m → deriveContainerName d n ≠ deriveContainerName d m) ∧
      (¬ ∀ n m : String, n ≠ m → containerSocketPath n ≠ containerSocketPath m) ∧
      ¬ ∀ (cfg : Config) (n m : String), n ≠ m →
        ∀ (host : Host) (acts : List Act) (s : State), Runs.run (step cfg) (.init host) acts = some s →
          ¬ Shared cfg s n m := by
  have hdiffer : "a b" ≠ "a_b" := by decide
  have hsame : ¬ ToldApart "a b" "a_b" := by
    rw [← map_sanitize_eq_iff, ← String.toList_inj, String.toList_map, String.toList_map]
    decide
  refine ⟨fun hall => ?_, fun hall => ?_, fun hall => ?_⟩
  · exact hall defaults "a b" "a_b" hdiffer ((deriveContainerName_eq_iff _ _ _).mpr hsame)
  · exact hall "a b" "a_b" hdiffer ((containerSocketPath_eq_iff _ _).mpr hsame)
  · obtain ⟨acts, s, hrun, hshared⟩ := shared_of_not_toldApart ⟨defaults, none⟩ hsame
    exact hall ⟨defaults, none⟩ "a b" "a_b" hdiffer _ acts s hrun hshared

end Nexal.Containers
