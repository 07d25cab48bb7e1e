import Nexal.Spec.AgentProxy

/-! A registration that fails. The old socket file is removed and the new one bound before the upstream URL
is read, so that a bad URL leaves a socket file that nobody listens on, in the place of one that is served. -/

namespace Nexal.AgentProxy

open Runs

variable {κ φ : Type}

def Manager.Running (m : Manager κ φ) (i : ℕ) : Prop := ∃ l, m.listeners[i]? = some l ∧ l.running = true

section

variable [DecidableEq κ]

def Serves (p : Paths κ φ) (m : Manager κ φ) (key : κ) : Prop :=
  ∃ i, m.instances.lookup key = some i ∧ m.Running i ∧ m.disk (p.file key) = some (.socket i)

structure LeftAsBefore (p : Paths κ φ) (m m' : Manager κ φ) : Prop where
  instances : m'.instances = m.instances
  running : ∀ i, m'.Running i ↔ m.Running i
  serving : ∀ key, Serves p m key → Serves p m' key
  /-- a socket file without a listener was there before -/
  sockets : ∀ f i, m'.disk f = some (.socket i) → ¬ m'.Running i → m.disk f = some (.socket i)

/-- A registration does not get past `bind` with a URL that cannot be read, and `bind` does not fail where the
socket file of a proxy that is served has been removed. -/
def SafeRegister (p : Paths κ φ) (m : Manager κ φ) : Act κ → Prop
  | .register socketPath upstreamUrl _ fs =>
    match fs.createDir, fs.bound with
    | .error _, _ => True
    | .ok (), .error _ => fs.removed = true → ∀ key, p.file key = p.file (p.pathBuf socketPath) → ¬ Serves p m key
    | .ok (), .ok () => (parseUpstream upstreamUrl).isOk = true
  | .unregister _ _ | .shutdown _ | .acceptFails _ => True

/-- If the step is a registration that returns an error, it leaves the manager as before. -/
def Atomic [DecidableEq φ] (p : Paths κ φ) (m : Manager κ φ) (a : Act κ) : Prop :=
  ∀ m' err, call p m a = some (m', .registered (.error err)) → LeftAsBefore p m m'

end

/-! The listeners of the socket files -/

def Known (m : Manager κ φ) : Prop := ∀ f i, m.disk f = some (.socket i) → i < m.listeners.length

variable {m m' : Manager κ φ}

theorem known_new (files : φ → Bool) : Known (Manager.new files : Manager κ φ) := by
  intro f i h
  simp only [Manager.new] at h
  split_ifs at h
  cases h

theorem length_cancel (m : Manager κ φ) (i : ℕ) : (m.cancel i).listeners.length = m.listeners.length :=
  List.length_modify ..

theorem Known.cancel (h : Known m) (i : ℕ) : Known (m.cancel i) := by
  intro f j hj
  rw [length_cancel]
  exact h f j hj

theorem running_iff_of_listeners (h : m'.listeners = m.listeners) (i : ℕ) : m'.Running i ↔ m.Running i := by
  rw [Manager.Running, Manager.Running, h]

theorem leftAsBefore_refl [DecidableEq κ] (p : Paths κ φ) (m : Manager κ φ) : LeftAsBefore p m m :=
  ⟨rfl, fun _ => Iff.rfl, fun _ => id, fun _ _ h _ => h⟩

theorem Known.insert [DecidableEq κ] (h : Known m) (path : κ) (i : ℕ) : Known (m.insert path i) := by
  unfold Manager.insert
  cases m.instances.lookup path with
  | none => exact h
  | some old => exact h.cancel old

variable [DecidableEq φ]

theorem disk_unlink {removed : Bool} {f f' : φ} {e : Entry} (h : (m.unlink removed f).disk f' = some e) :
    m.disk f' = some e := by
  unfold Manager.unlink at h
  split_ifs at h
  · dsimp only at h
    rw [Function.update_apply] at h
    split_ifs at h
    exact h
  · exact h

theorem listeners_unlink (m : Manager κ φ) (removed : Bool) (f : φ) : (m.unlink removed f).listeners = m.listeners := by
  unfold Manager.unlink
  split_ifs <;> rfl

theorem instances_unlink (m : Manager κ φ) (removed : Bool) (f : φ) : (m.unlink removed f).instances = m.instances := by
  unfold Manager.unlink
  split_ifs <;> rfl

theorem Known.unlink (h : Known m) (removed : Bool) (f : φ) : Known (m.unlink removed f) := by
  intro f' i hi
  rw [listeners_unlink]
  exact h f' i (disk_unlink hi)

theorem Known.bind (h : Known m) (f : φ) (l : Listener) : Known (m.bind f l) := by
  intro f' i hi
  rw [Manager.bind, List.length_append, List.length_singleton]
  simp only [Manager.bind, Function.update_apply] at hi
  split_ifs at hi
  · cases hi
    exact Nat.lt_succ_self _
  · exact Nat.lt_succ_of_lt (h f' i hi)

variable [DecidableEq κ]

theorem Known.remove (h : Known m) (p : Paths κ φ) (path : κ) (removed : Bool) : Known (m.remove p path removed) := by
  unfold Manager.remove
  cases m.instances.lookup path with
  | none => exact h
  | some i => exact (h.cancel i).unlink removed (p.file path)

theorem Known.shutdown (h : Known m) (p : Paths κ φ) (removed : κ → Bool) : Known (m.shutdown p removed) := by
  unfold Manager.shutdown
  generalize m.instances.keys = keys
  induction keys generalizing m with
  | nil => exact h
  | cons key keys ih => exact ih (h.remove p key (removed key))

variable {p : Paths κ φ}

inductive Registers (p : Paths κ φ) (m : Manager κ φ) (socketPath upstreamUrl : String)
    (headers : List (String × String))
    (fs : FsAnswers) : Manager κ φ → Except String Unit → Prop
  | createDir {err text : String} (h : fs.createDir = .error err) :
    Registers p m socketPath upstreamUrl headers fs m (.error text)
  | bound {err text : String} (hdir : fs.createDir = .ok ()) (h : fs.bound = .error err) :
    Registers p m socketPath upstreamUrl headers fs (m.unlink fs.removed (p.file (p.pathBuf socketPath))) (.error text)
  | upstream {err text : String} (hdir : fs.createDir = .ok ()) (hbound : fs.bound = .ok ())
    (h : parseUpstream upstreamUrl = .error err) :
    Registers p m socketPath upstreamUrl headers fs
      ((m.unlink fs.removed (p.file (p.pathBuf socketPath))).bind (p.file (p.pathBuf socketPath)) ⟨none, false⟩)
        (.error text)
  | done {info : UpstreamInfo} {i : ℕ} (hdir : fs.createDir = .ok ()) (hbound : fs.bound = .ok ())
    (h : parseUpstream upstreamUrl = .ok info) :
    Registers p m socketPath upstreamUrl headers fs
      (((m.unlink fs.removed (p.file (p.pathBuf socketPath))).bind (p.file (p.pathBuf socketPath))
        ⟨some (info, headers), true⟩).insert (p.pathBuf socketPath) i) (.ok ())

theorem registers_of_register {socketPath upstreamUrl : String} {headers : List (String × String)} {fs : FsAnswers}
    {r : Manager κ φ × Except String Unit} (h : m.register p socketPath upstreamUrl headers fs = some r) :
    Registers p m socketPath upstreamUrl headers fs r.1 r.2 := by
  simp only [Manager.register] at h
  split at h
  · rename_i err hdir
    cases h
    exact .createDir hdir
  · rename_i hdir
    split at h
    · rename_i err hbound
      cases h
      exact .bound hdir hbound
    · rename_i hbound
      split_ifs at h
      split at h
      · rename_i err hupstream
        cases h
        exact .upstream hdir hbound hupstream
      · rename_i info hupstream
        cases h
        exact .done hdir hbound hupstream

theorem known_step {a : Act κ} (h : Known m) (hs : step p m a = some m') : Known m' := by
  obtain ⟨r, hr, rfl⟩ := Option.map_eq_some_iff.mp hs
  cases a with
  | register socketPath upstreamUrl headers fs =>
    obtain ⟨r', hr', rfl⟩ := Option.map_eq_some_iff.mp hr
    obtain ⟨m', result⟩ := r'
    cases registers_of_register hr' with
    | createDir _ => exact h
    | bound _ _ => exact h.unlink fs.removed _
    | upstream _ _ _ => exact (h.unlink fs.removed _).bind _ _
    | done _ _ _ => exact ((h.unlink fs.removed _).bind _ _).insert _ _
  | unregister socketPath removed =>
    cases hr
    exact h.remove p _ removed
  | shutdown removed =>
    cases hr
    exact h.shutdown p removed
  | acceptFails listener =>
    cases hr
    exact h.cancel listener

/-! A registration that fails -/

/-- Where `bind` fails, the file that was there may be gone. -/
theorem leftAsBefore_unlink_iff (removed : Bool) (f : φ) :
    LeftAsBefore p m (m.unlink removed f) ↔ (removed = true → ∀ key, p.file key = f → ¬ Serves p m key) := by
  constructor
  · rintro h rfl key rfl hserves
    obtain ⟨i, -, -, hdisk⟩ := h.serving key hserves
    simp [Manager.unlink] at hdisk
  · intro h
    have hrunning := running_iff_of_listeners (listeners_unlink m removed f)
    refine ⟨instances_unlink m removed f, hrunning, fun key hserves => ?_, fun f' i hdisk _ => disk_unlink hdisk⟩
    obtain ⟨i, hi, hrun, hdisk⟩ := hserves
    refine ⟨i, by rw [instances_unlink]; exact hi, (hrunning i).mpr hrun, ?_⟩
    unfold Manager.unlink
    split_ifs with hremoved
    · have hne : p.file key ≠ f := fun heq => h hremoved key heq ⟨i, hi, hrun, hdisk⟩
      exact (Function.update_of_ne hne _ _).trans hdisk
    · exact hdisk

/-- Where the URL is bad, the new socket file has no listener. -/
theorem not_leftAsBefore_bind (h : Known m) (removed : Bool) (f : φ) :
    ¬ LeftAsBefore p m ((m.unlink removed f).bind f ⟨none, false⟩) := by
  intro hleft
  have hdisk : ((m.unlink removed f).bind f ⟨none, false⟩).disk f = some (.socket m.listeners.length) := by
    rw [Manager.bind, listeners_unlink]
    exact Function.update_self f _ _
  have hstopped : ¬ ((m.unlink removed f).bind f ⟨none, false⟩).Running m.listeners.length := by
    rintro ⟨l, hl, hrunning⟩
    rw [Manager.bind, listeners_unlink, List.getElem?_concat_length] at hl
    cases hl
    cases hrunning
  exact absurd (h f _ (hleft.sockets f _ hdisk hstopped)) (Nat.lt_irrefl _)

/-- One call, against the condition. -/
theorem atomic_iff {a : Act κ} (h : Known m) (hs : step p m a = some m') : SafeRegister p m a ↔ Atomic p m a := by
  obtain ⟨r, hr, -⟩ := Option.map_eq_some_iff.mp hs
  cases a with
  | register socketPath upstreamUrl headers fs =>
    obtain ⟨⟨after, result⟩, hregister, rfl⟩ := Option.map_eq_some_iff.mp hr
    have hatomic : Atomic p m (.register socketPath upstreamUrl headers fs) ↔
        ∀ err, result = .error err → LeftAsBefore p m after := by
      constructor
      · rintro hall err rfl
        exact hall after err hr
      · intro hall m' err heq
        rw [hr] at heq
        cases heq
        exact hall err rfl
    rw [hatomic, SafeRegister]
    cases registers_of_register hregister with
    | createDir hdir =>
      rw [hdir]
      exact iff_of_true trivial fun _ _ => leftAsBefore_refl p _
    | bound hdir hbound =>
      rw [hdir, hbound]
      exact (leftAsBefore_unlink_iff fs.removed _).symm.trans ⟨fun hleft _ _ => hleft, fun hall => hall _ rfl⟩
    | upstream hdir hbound hupstream =>
      rw [hdir, hbound, hupstream]
      refine iff_of_false (fun hok => by cases hok) fun hall => ?_
      exact not_leftAsBefore_bind h fs.removed _ (hall _ rfl)
    | done hdir hbound hupstream =>
      rw [hdir, hbound, hupstream]
      exact iff_of_true rfl fun err heq => by cases heq
  | unregister socketPath removed => exact iff_of_true trivial fun m' err heq => by cases heq
  | shutdown removed => exact iff_of_true trivial fun m' err heq => by cases heq
  | acceptFails listener => exact iff_of_true trivial fun m' err heq => by cases heq

/-- In any sequence of calls, those that return an error leave the manager as before exactly when the
registrations among them are safe. -/
theorem registrations_atomic_iff {files : φ → Bool} {acts : List (Act κ)} (h : run (step p) (.new files) acts = some m) :
    RunOk (step p) (Atomic p) (.new files) acts ↔ RunOk (step p) (SafeRegister p) (.new files) acts :=
  runOk_congr Known (fun _ _ _ hknown hs => ⟨known_step hknown hs, (atomic_iff hknown hs).symm⟩) (known_new files) h

/-! A proxy that is registered again -/

def onePath : Paths String String := ⟨id, id⟩

def served : FsAnswers := ⟨.ok (), true, .ok ()⟩

theorem registrations_atomic_iff_again : ∃ m,
    run (step onePath) (.new fun _ => false)
      [.register "/p.sock" "https://a" [] served, .register "/p.sock" "http://b:80/x" [] served] = some m ∧
    (RunOk (step onePath) (Atomic onePath) (.new fun _ => false)
        [.register "/p.sock" "https://a" [] served, .register "/p.sock" "http://b:80/x" [] served] ↔
      RunOk (step onePath) (SafeRegister onePath) (.new fun _ => false)
        [.register "/p.sock" "https://a" [] served, .register "/p.sock" "http://b:80/x" [] served]) := by
  obtain ⟨m, hm⟩ : ∃ m, run (step onePath) (.new fun _ => false)
      [.register "/p.sock" "https://a" [] served, .register "/p.sock" "http://b:80/x" [] served] = some m := ⟨_, rfl⟩
  exact ⟨m, hm, registrations_atomic_iff hm⟩

/-- A URL without a scheme takes the socket file from the proxy that is registered. -/
theorem bad_url_takes_socket : ∃ m m' err, step onePath (.new fun _ => false)
    (.register "/p.sock" "https://a" [] served) = some m ∧
    call onePath m (.register "/p.sock" "a" [] served) = some (m', .registered (.error err)) ∧
    Serves onePath m "/p.sock" ∧ ¬ Serves onePath m' "/p.sock" ∧ ¬ LeftAsBefore onePath m m' := by
  have hgone : ∀ m m' : Manager String String, Serves onePath m "/p.sock" → m'.disk "/p.sock" = some (.socket 1) →
      m'.instances.lookup "/p.sock" = some 0 → ¬ Serves onePath m' "/p.sock" ∧ ¬ LeftAsBefore onePath m m' := by
    intro m m' hserves hdisk hinstance
    have hnot : ¬ Serves onePath m' "/p.sock" := by
      rintro ⟨i, hi, -, hsocket⟩
      cases hinstance.symm.trans hi
      cases hdisk.symm.trans hsocket
    exact ⟨hnot, fun hleft => hnot (hleft.serving "/p.sock" hserves)⟩
  have hserves : ∀ m : Manager String String, m.instances.lookup "/p.sock" = some 0 → m.Running 0 →
      m.disk "/p.sock" = some (.socket 0) → Serves onePath m "/p.sock" := fun m hi hrun hdisk => ⟨0, hi, hrun, hdisk⟩
  refine ⟨_, _, _, rfl, rfl, hserves _ rfl ⟨_, rfl, rfl⟩ rfl,
    hgone _ _ (hserves _ rfl ⟨_, rfl, rfl⟩ rfl) rfl rfl⟩

end Nexal.AgentProxy
