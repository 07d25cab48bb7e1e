import Nexal.Sanity.RunCommand
import Nexal.Spec.RunCommand

/-! What a remote command's client collects. The agent reports the exit of a process as soon as its
exit watcher has been at the table, also when output of the process is still on its way there, and
the client stops at the first response that reports it. -/

namespace Nexal.RunCommand

open LocalProcess Runs

def inTransit (s : State) (side : Side) : Bytes :=
  s.agent.procs.flatMap (fun p => (pendingOf (p.out side)).flatten) ++ s.pipe side

/-- The client's read is about to look at an entry with an exit code. -/
def findsExit (processId : ProcessId) (s : State) : Bool :=
  match s.client.phase, s.agent.processes processId with
  | .reading k, some (.running e) => s.agent.readers[k]?.any (·.phase = .locking) && e.exitCode.isSome
  | _, _ => false

def Arrived (s : State) (side : Side) : Prop :=
  (s.atExit side).length + (inTransit s side).length ≤ (s.written side).length

/-- A read that finds the exit code finds everything written before the exit, and no character is
cut by a read from the pipe. -/
def CaughtUp (processId : ProcessId) (s : State) : Act → Prop
  | .readPipe side n => Utf8.Valid ((s.pipe side).take n)
  | .reader => findsExit processId s = true → Arrived s .stdout ∧ Arrived s .stderr
  | _ => True

instance (s : State) (side : Side) : Decidable (Arrived s side) :=
  inferInstanceAs (Decidable (_ ≤ _))

def total (s : State) : ℕ := (s.written .stdout).length + (s.written .stderr).length

def Whole (chunk : Bytes) : Prop := chunk ≠ [] ∧ Utf8.Valid chunk

/-! Under the retention limit nothing is evicted, and a read returns all it has -/

theorem evict_of_le {output : List RetainedOutputChunk} {n : ℕ} (h : n ≤ retainedOutputBytesPerProcess) :
    evict output n = (output, n) := by
  cases output with
  | nil => rfl
  | cons c output => rw [evict, if_neg (Nat.not_lt.mpr h)]

theorem readLoop_all {maxBytes : ℕ} {retained chunks : List RetainedOutputChunk} {n nextSeq : ℕ}
    (hwhole : ∀ c ∈ retained, c.chunk ≠ []) (hmax : n + outputBytes retained ≤ maxBytes) :
    (readLoop maxBytes retained chunks n nextSeq).1 = chunks ++ retained := by
  induction retained generalizing chunks n nextSeq with
  | nil => rw [readLoop, List.append_nil]
  | cons c retained ih =>
    have hbytes : outputBytes (c :: retained) = c.chunk.length + outputBytes retained := by simp [outputBytes]
    rw [hbytes] at hmax
    rw [readLoop, if_neg (by omega)]
    split_ifs with hfull
    · -- the page is full: every further chunk would add a byte
      have hnil : retained = [] := by
        cases retained with
        | nil => rfl
        | cons d retained =>
          have hd := List.length_pos_iff.mpr (hwhole d (by simp))
          simp only [outputBytes, List.map_cons, List.sum_cons] at hmax
          omega
      rw [hnil]
    · rw [ih (fun d hd => hwhole d (List.mem_cons_of_mem _ hd)) (by omega), List.append_assoc, List.singleton_append]

theorem streamBytes_cons_self {side : Side} {c : RetainedOutputChunk} (h : c.stream = streamOf side)
    (l : List RetainedOutputChunk) : streamBytes side (c :: l) = c.chunk ++ streamBytes side l := by
  simp [streamBytes, h]

theorem streamOf_injective {side side' : Side} (h : streamOf side = streamOf side') : side = side' := by
  cases side <;> cases side' <;> first | rfl | cases h

theorem streamBytes_cons_ne {side : Side} {c : RetainedOutputChunk} (h : c.stream ≠ streamOf side)
    (l : List RetainedOutputChunk) : streamBytes side (c :: l) = streamBytes side l := by
  simp [streamBytes, h]

theorem outputBytes_eq {l : List RetainedOutputChunk} (h : ∀ c ∈ l, ∃ side, c.stream = streamOf side) :
    outputBytes l = (streamBytes .stdout l).length + (streamBytes .stderr l).length := by
  induction l with
  | nil => rfl
  | cons c l ih =>
    have hl := ih fun d hd => h d (List.mem_cons_of_mem _ hd)
    have hc : outputBytes (c :: l) = c.chunk.length + outputBytes l := by simp [outputBytes]
    obtain ⟨side, hside⟩ := h c List.mem_cons_self
    cases side with
    | stdout =>
      rw [hc, hl, streamBytes_cons_self hside, streamBytes_cons_ne (by rw [hside]; simp [streamOf]), List.length_append]
      omega
    | stderr =>
      rw [hc, hl, streamBytes_cons_self hside, streamBytes_cons_ne (by rw [hside]; simp [streamOf]), List.length_append]
      omega

/-! The client's loop over a response -/

theorem text_collect {c : Client} {chunk : RetainedOutputChunk} {side : Side} (hwhole : Whole chunk.chunk)
    (hside : ∃ side, chunk.stream = streamOf side) :
    Utf8.encode ((c.collect chunk).text side) = Utf8.encode (c.text side) ++ streamBytes side [chunk] := by
  have hdecode : Utf8.encode (Utf8.decode chunk.chunk) = chunk.chunk := Utf8.encode_decode hwhole.2
  obtain ⟨side', hstream⟩ := hside
  cases side <;> cases side' <;>
    simp [Client.collect, Client.text, hstream, streamOf, streamBytes, Utf8.encode_append, hdecode]

structure Collected (c c' : Client) (chunks : List RetainedOutputChunk) : Prop where
  text : ∀ side, Utf8.encode (c'.text side) = Utf8.encode (c.text side) ++ streamBytes side chunks
  after : c.afterSeq ≤ c'.afterSeq
  covers : ∀ d ∈ chunks, d.seq ≤ c'.afterSeq
  last : c'.afterSeq = c.afterSeq ∨ ∃ d ∈ chunks, c'.afterSeq = d.seq

theorem collected_foldl {c : Client} {chunks : List RetainedOutputChunk}
    (hwhole : ∀ d ∈ chunks, Whole d.chunk ∧ ∃ side, d.stream = streamOf side) :
    Collected c (chunks.foldl Client.collect c) chunks := by
  induction chunks generalizing c with
  | nil => exact ⟨fun side => (List.append_nil _).symm, le_rfl, by simp, Or.inl rfl⟩
  | cons d chunks ih =>
    obtain ⟨htext, hafter, hchunks, hlast⟩ :=
      @ih (c.collect d) fun x hx => hwhole x (List.mem_cons_of_mem _ hx)
    obtain ⟨hd, hside⟩ := hwhole d List.mem_cons_self
    have hseq : c.afterSeq ≤ (c.collect d).afterSeq ∧ d.seq ≤ (c.collect d).afterSeq ∧
        ((c.collect d).afterSeq = c.afterSeq ∨ (c.collect d).afterSeq = d.seq) := by
      dsimp only [Client.collect]
      split_ifs with hlt
      · exact ⟨Nat.le_of_lt hlt, le_rfl, Or.inr rfl⟩
      · exact ⟨le_rfl, Nat.not_lt.mp hlt, Or.inl rfl⟩
    refine ⟨fun side => ?_, hseq.1.trans hafter, ?_, ?_⟩
    · rw [List.foldl_cons, htext, text_collect hd hside, List.append_assoc, ← streamBytes_append,
        List.singleton_append]
    · intro x hx
      rcases List.mem_cons.mp hx with rfl | hx
      · exact hseq.2.1.trans hafter
      · exact hchunks x hx
    · rw [List.foldl_cons]
      rcases hlast with heq | ⟨x, hx, heq⟩
      · rcases hseq.2.2 with hsame | hnew
        · exact Or.inl (heq.trans hsame)
        · exact Or.inr ⟨d, List.mem_cons_self, heq.trans hnew⟩
      · exact Or.inr ⟨x, List.mem_cons_of_mem _ hx, heq⟩

/-! What holds along every run -/

section Invariant
variable (processId : ProcessId)

structure AgentOk (s : State) (p : Proc) : Prop where
  procs : s.agent.procs = [p]
  id : p.id = processId
  entries : EntryInv s.agent
  stream : ∀ side, (p.out side).stream = streamOf side
  whole : ∀ c ∈ chunksOf p, Whole c.chunk ∧ ∃ side, c.stream = streamOf side
  pending : ∀ side, ∀ c ∈ pendingOf (p.out side), Whole c
  appended : ∀ side, streamBytes side (chunksOf p) <+: s.written side
  /-- while the entry is there, no byte is lost on the way -/
  entry : ∀ e, s.agent.processes processId = some (.running e) → e.output = chunksOf p ∧
    ∀ side, streamBytes side (chunksOf p) ++ ((pendingOf (p.out side)).flatten ++ s.pipe side) = s.written side
  atExit : ∀ side, s.atExit side <+: s.written side
  exited : s.exited = none → p.exit = .waiting

def answer : ReadPhase → Option ReadResponse
  | .checked response _ => some response
  | .returned (.inl response) => some response
  | _ => none

structure ResponseOk (s : State) (p : Proc) (seen : List RetainedOutputChunk) (resp : ReadResponse) : Prop where
  failure : resp.failure = none
  chunks : seen ++ resp.chunks <+: chunksOf p
  exited : resp.exited = true → s.exited.isSome ∧ ∀ side, s.atExit side <+: streamBytes side (seen ++ resp.chunks)

structure ReaderOk (s : State) (p : Proc) (seen : List RetainedOutputChunk) (r : Reader) : Prop where
  params : r.params = readParams processId s.client.afterSeq
  response : ∀ resp, answer r.phase = some resp → ResponseOk s p seen resp

structure ClientOk (s : State) (p : Proc) (seen : List RetainedOutputChunk) : Prop where
  split : ∃ rest, chunksOf p = seen ++ rest ∧ ∀ c ∈ rest, s.client.afterSeq < c.seq
  old : ∀ c ∈ seen, c.seq ≤ s.client.afterSeq
  below : ∀ e, s.agent.processes processId = some (.running e) → s.client.afterSeq < e.nextSeq
  text : ∀ side, Utf8.encode (s.client.text side) = streamBytes side seen
  reading : ∀ k, s.client.phase = .reading k → ∃ r, s.agent.readers[k]? = some r ∧ ReaderOk processId s p seen r
  finished : ∀ code, s.client.phase = .finished code →
    s.exited.isSome ∧ ∀ side, s.atExit side <+: streamBytes side seen

def CmdInv (s : State) : Prop := ∃ p seen, AgentOk processId s p ∧ ClientOk processId s p seen

end Invariant

variable {processId : ProcessId} {s s' : State} {p p' : Proc} {seen : List RetainedOutputChunk}

theorem AgentOk.localInv (h : AgentOk processId s p) : LocalInv (s.agent.processes processId) p := by
  have hone := h.entries 0 p (by rw [h.procs]; rfl) fun j q hj _ => ?_
  · rwa [h.id] at hone
  · have hlt := (List.getElem?_eq_some_iff.mp hj).1
    simpa [h.procs] using hlt

theorem chunksOf_increasing (h : EventsOk p) : (chunksOf p).Pairwise fun a b => a.seq < b.seq := by
  refine h.ordered.filterMap ofEvent fun a b hab x hx y hy => ?_
  cases a <;> cases hx
  cases b <;> cases hy
  exact hab

/-- The agent goes on; nothing that the client relies on is taken back. -/
theorem ClientOk.mono (h : ClientOk processId s p seen) (hclient : s'.client = s.client)
    (hchunks : ∃ new, chunksOf p' = chunksOf p ++ new ∧ ∀ c ∈ new, s.client.afterSeq < c.seq)
    (hentry : ∀ e', s'.agent.processes processId = some (.running e') →
      ∃ e, s.agent.processes processId = some (.running e) ∧ e.nextSeq ≤ e'.nextSeq)
    (hreaders : ∀ (k : ℕ) (r : Reader), s.agent.readers[k]? = some r →
      ∃ r' : Reader, s'.agent.readers[k]? = some r' ∧ r'.params = r.params ∧ answer r'.phase = answer r.phase)
    (hexited : s.exited.isSome → s'.exited.isSome ∧ s'.atExit = s.atExit) : ClientOk processId s' p' seen := by
  obtain ⟨new, hnew, hafter⟩ := hchunks
  obtain ⟨rest, hrest, hlater⟩ := h.split
  refine ⟨⟨rest ++ new, ?_, fun c hc => ?_⟩, ?_, fun e' he' => ?_, ?_, fun k hk => ?_, fun code hcode => ?_⟩
  · rw [hnew, hrest, List.append_assoc]
  · rw [hclient]
    rcases List.mem_append.mp hc with hc | hc
    · exact hlater c hc
    · exact hafter c hc
  · rw [hclient]
    exact h.old
  · obtain ⟨e, he, hle⟩ := hentry e' he'
    rw [hclient]
    exact lt_of_lt_of_le (h.below e he) hle
  · rw [hclient]
    exact h.text
  · rw [hclient] at hk
    obtain ⟨r, hr, hok⟩ := h.reading k hk
    obtain ⟨r', hr', hparams, hanswer⟩ := hreaders k r hr
    refine ⟨r', hr', ?_, fun resp hresp => ?_⟩
    · rw [hparams, hok.params, hclient]
    · obtain ⟨hfailure, hprefix, hexit⟩ := hok.response resp (hanswer ▸ hresp)
      refine ⟨hfailure, ?_, fun hset => ?_⟩
      · rw [hnew]
        exact hprefix.trans (List.prefix_append _ _)
      · obtain ⟨hsome, hall⟩ := hexit hset
        obtain ⟨hsome', heq⟩ := hexited hsome
        exact ⟨hsome', heq ▸ hall⟩
  · rw [hclient] at hcode
    obtain ⟨hsome, hall⟩ := h.finished code hcode
    obtain ⟨hsome', heq⟩ := hexited hsome
    exact ⟨hsome', heq ▸ hall⟩

/-- A step of the world around the agent's table. -/
theorem ClientOk.of_eq (h : ClientOk processId s p seen) (hclient : s'.client = s.client)
    (hchunks : chunksOf p' = chunksOf p)
    (hprocesses : s'.agent.processes = s.agent.processes) (hreaders : s'.agent.readers = s.agent.readers)
    (hexited : s.exited.isSome → s'.exited.isSome ∧ s'.atExit = s.atExit) : ClientOk processId s' p' seen := by
  refine h.mono hclient ⟨[], ?_, by simp⟩ (fun e' he' => ⟨e', hprocesses ▸ he', le_rfl⟩) (fun k r hr => ?_) hexited
  · rw [hchunks, List.append_nil]
  · exact ⟨r, hreaders ▸ hr, rfl, rfl⟩

/-! One lemma for each step -/

theorem cmdInv_write {side : Side} {bytes : Bytes} (ha : AgentOk processId s p) (hc : ClientOk processId s p seen)
    (hs : step processId s (.write side bytes) = some s') : CmdInv processId s' := by
  simp only [step] at hs
  split_ifs at hs
  cases hs
  have hgrow : ∀ side', s.written side' <+: Function.update s.written side (s.written side ++ bytes) side' := by
    intro side'
    by_cases hside : side' = side
    · rw [hside, Function.update_self]
      exact List.prefix_append _ _
    · have hsame := Function.update_of_ne hside (s.written side ++ bytes) s.written
      exact hsame ▸ List.prefix_refl _
  refine ⟨p, seen, { ha with
    appended := fun side' => (ha.appended side').trans (hgrow side')
    entry := fun e he => ⟨(ha.entry e he).1, fun side' => ?_⟩
    atExit := fun side' => (ha.atExit side').trans (hgrow side') }, hc.of_eq rfl rfl rfl rfl fun hset => ⟨hset, rfl⟩⟩
  have hsum := (ha.entry e he).2 side'
  by_cases hside : side' = side
  · subst hside
    simp only [Function.update_self]
    rw [← hsum, List.append_assoc, List.append_assoc]
  · simp only [Function.update_of_ne hside]
    exact hsum

theorem cmdInv_exit {code : Int32} (ha : AgentOk processId s p) (hc : ClientOk processId s p seen)
    (hs : step processId s (.exit code) = some s') : CmdInv processId s' := by
  simp only [step] at hs
  split_ifs at hs with hnone
  cases hs
  refine ⟨p, seen, { ha with
    atExit := fun _ => List.prefix_refl _
    exited := fun hsome => by cases hsome }, hc.of_eq rfl rfl rfl rfl fun hset => ?_⟩
  rw [hnone] at hset
  cases hset

theorem onAgent_eq {a : LocalProcess.Act} (hs : onAgent s a = some s') :
    ∃ agent, LocalProcess.step s.agent a = some agent ∧ s' = { s with agent := agent } := by
  obtain ⟨agent, hagent, rfl⟩ := Option.map_eq_some_iff.mp hs
  exact ⟨agent, hagent, rfl⟩

/-- The process's end of the table changes, not the table. -/
theorem AgentOk.with_proc (h : AgentOk processId s p) (hprocs : s'.agent.procs = [p'])
    (hentries : EntryInv s'.agent) (hprocesses : s'.agent.processes = s.agent.processes) (hid : p'.id = p.id)
    (hstream : ∀ side, (p'.out side).stream = (p.out side).stream) (hchunks : chunksOf p' = chunksOf p)
    (hpending : ∀ side, ∀ c ∈ pendingOf (p'.out side), Whole c)
    (hsum : ∀ side, (pendingOf (p'.out side)).flatten ++ s'.pipe side = (pendingOf (p.out side)).flatten ++ s.pipe side)
    (hwritten : s'.written = s.written) (hatExit : s'.atExit = s.atExit)
    (hexited : s'.exited = none → p'.exit = .waiting) : AgentOk processId s' p' where
  procs := hprocs
  id := hid.trans h.id
  entries := hentries
  stream := fun side => (hstream side).trans (h.stream side)
  whole := hchunks ▸ h.whole
  pending := hpending
  appended := by
    rw [hchunks, hwritten]
    exact h.appended
  entry := by
    rw [hprocesses, hchunks, hwritten]
    refine fun e he => ⟨(h.entry e he).1, fun side => ?_⟩
    rw [hsum]
    exact (h.entry e he).2 side
  atExit := by
    rw [hatExit, hwritten]
    exact h.atExit
  exited := hexited

theorem cmdInv_readPipe {side : Side} {n : ℕ} (ha : AgentOk processId s p) (hc : ClientOk processId s p seen)
    (hvalid : Utf8.Valid ((s.pipe side).take n)) (hs : step processId s (.readPipe side n) = some s') :
    CmdInv processId s' := by
  simp only [step] at hs
  split_ifs at hs with hn
  obtain ⟨m, hm, rfl⟩ := Option.map_eq_some_iff.mp hs
  obtain ⟨agent, hagent, rfl⟩ := onAgent_eq hm
  have hentries := entryInv_step ha.entries hagent
  obtain ⟨q, hq, hagent⟩ := Option.bind_eq_some_iff.mp hagent
  rw [ha.procs] at hq
  cases hq
  dsimp only at hagent
  split_ifs at hagent
  cases hagent
  have hpending : pendingOf { p.out side with queue := (p.out side).queue ++ [(s.pipe side).take n] } =
      pendingOf (p.out side) ++ [(s.pipe side).take n] := by
    unfold pendingOf
    dsimp only
    split <;> rfl
  have hwhole : Whole ((s.pipe side).take n) := by
    refine ⟨fun hnil => ?_, hvalid⟩
    rcases List.take_eq_nil_iff.mp hnil with hzero | hpipe
    · omega
    · rw [hpipe, List.length_nil] at hn
      omega
  refine ⟨_, seen, ha.with_proc (by rw [ha.procs]; rfl) hentries rfl setOut_id (fun side' => ?_)
    (chunksOf_congr setOut_issued) (fun side' c hmem => ?_) (fun side' => ?_) rfl rfl (fun hnone => ?_),
    hc.of_eq rfl (chunksOf_congr setOut_issued) rfl rfl fun hset => ⟨hset, rfl⟩⟩
  · by_cases hside : side' = side
    · rw [hside, out_setOut_self]
    · rw [out_setOut_ne hside]
  · by_cases hside : side' = side
    · rw [hside, out_setOut_self, hpending] at hmem
      rcases List.mem_append.mp hmem with hmem | hmem
      · exact ha.pending side c hmem
      · rw [List.mem_singleton.mp hmem]
        exact hwhole
    · rw [out_setOut_ne hside] at hmem
      exact ha.pending side' c hmem
  · dsimp only
    by_cases hside : side' = side
    · rw [hside, out_setOut_self, hpending, Function.update_self, List.flatten_append, List.flatten_singleton,
        List.append_assoc, List.take_append_drop]
    · rw [out_setOut_ne hside, Function.update_of_ne hside]
  · rw [setOut_exit]
    exact ha.exited hnone

theorem cmdInv_endPipe {side : Side} (ha : AgentOk processId s p) (hc : ClientOk processId s p seen)
    (hs : step processId s (.endPipe side) = some s') : CmdInv processId s' := by
  simp only [step] at hs
  split_ifs at hs
  obtain ⟨agent, hagent, rfl⟩ := onAgent_eq hs
  have hentries := entryInv_step ha.entries hagent
  obtain ⟨q, hq, rfl⟩ := Option.map_eq_some_iff.mp hagent
  rw [ha.procs] at hq
  cases hq
  have hpending : ∀ side', pendingOf ((p.setOut side { p.out side with ended := true }).out side') =
      pendingOf (p.out side') := by
    intro side'
    by_cases hside : side' = side
    · rw [hside, out_setOut_self]
      rfl
    · rw [out_setOut_ne hside]
  refine ⟨_, seen, ha.with_proc (by rw [ha.procs]; rfl) hentries rfl setOut_id (fun side' => ?_)
    (chunksOf_congr setOut_issued) (fun side' => ?_) (fun side' => ?_) rfl rfl (fun hnone => ?_),
    hc.of_eq rfl (chunksOf_congr setOut_issued) rfl rfl fun hset => ⟨hset, rfl⟩⟩
  · by_cases hside : side' = side
    · rw [hside, out_setOut_self]
    · rw [out_setOut_ne hside]
  · rw [hpending]
    exact ha.pending side'
  · rw [hpending]
  · rw [setOut_exit]
    exact ha.exited hnone

theorem cmdInv_reap (ha : AgentOk processId s p) (hc : ClientOk processId s p seen)
    (hs : step processId s .reap = some s') : CmdInv processId s' := by
  obtain ⟨code, hcode, hs⟩ := Option.bind_eq_some_iff.mp hs
  obtain ⟨agent, hagent, rfl⟩ := onAgent_eq hs
  have hentries := entryInv_step ha.entries hagent
  obtain ⟨q, hq, hagent⟩ := Option.bind_eq_some_iff.mp hagent
  rw [ha.procs] at hq
  cases hq
  split_ifs at hagent
  cases hagent
  refine ⟨{ p with exit := .locking code }, seen,
    ha.with_proc (by rw [ha.procs]; rfl) hentries rfl rfl (fun side => ?_) rfl ha.pending (fun side => ?_) rfl rfl
      (fun hnone => ?_), hc.of_eq rfl rfl rfl rfl fun hset => ⟨hset, rfl⟩⟩
  · rfl
  · rfl
  · rw [hcode] at hnone
    cases hnone

/-- What is on its way to the table fits into it. -/
theorem appendOutput_output {side : Side} {chunk : Bytes} {e : RunningProcess} (ha : AgentOk processId s p)
    (hlimit : total s ≤ retainedOutputBytesPerProcess) (he : s.agent.processes processId = some (.running e))
    (hpending : ∃ rest, pendingOf (p.out side) = chunk :: rest) :
    (appendOutput p.id (p.out side).stream chunk e).1.output =
      chunksOf p ++ [⟨e.nextSeq, (p.out side).stream, chunk⟩] := by
  obtain ⟨houtput, hsum⟩ := ha.entry e he
  have hroom : e.retainedBytes + chunk.length ≤ retainedOutputBytesPerProcess := by
    refine le_trans ?_ hlimit
    obtain ⟨rest, hrest⟩ := hpending
    have hstdout := congrArg List.length (hsum .stdout)
    have hstderr := congrArg List.length (hsum .stderr)
    rw [(ha.localInv.2 e he).bytes, houtput, outputBytes_eq fun c hc => (ha.whole c hc).2]
    simp only [total, ← hstdout, ← hstderr, List.length_append]
    cases side <;>
    · simp only [hrest, List.flatten_cons, List.length_append]
      omega
  simp only [appendOutput, evict_of_le hroom, houtput]

theorem answer_wake (r : Reader) (notify : ℕ) :
    (r.wake notify).params = r.params ∧ answer (r.wake notify).phase = answer r.phase := by
  unfold Reader.wake
  split_ifs with hparked
  · rw [hparked]
    exact ⟨rfl, rfl⟩
  · exact ⟨rfl, rfl⟩

theorem answer_elapse (r : Reader) : r.elapse.params = r.params ∧ answer r.elapse.phase = answer r.phase := by
  unfold Reader.elapse
  split
  · rename_i hparked
    rw [hparked]
    exact ⟨rfl, rfl⟩
  · exact ⟨rfl, rfl⟩

/-- What a task leaves as it is on the agent: it is the only process, and readers are at most woken. -/
structure AgentFrame (s : State) (agent : LocalProcess.State) (p p' : Proc) : Prop extends TaskFrame p p' where
  procs : agent.procs = [p']
  entries : EntryInv agent
  readers : ∀ (k : ℕ) (r : Reader), s.agent.readers[k]? = some r →
    ∃ r' : Reader, agent.readers[k]? = some r' ∧ r'.params = r.params ∧ answer r'.phase = answer r.phase

/-- A task that appends nothing to the table. -/
theorem cmdInv_same_chunks {agent : LocalProcess.State} (ha : AgentOk processId s p) (hc : ClientOk processId s p seen)
    (hframe : AgentFrame s agent p p') (hchunks : chunksOf p' = chunksOf p)
    (hpending : ∀ side, ∀ c ∈ pendingOf (p'.out side), c ∈ pendingOf (p.out side))
    (hentry : ∀ e', agent.processes processId = some (.running e') →
      ∃ e, s.agent.processes processId = some (.running e) ∧ e'.output = e.output ∧ e.nextSeq ≤ e'.nextSeq ∧
        ∀ side, pendingOf (p'.out side) = pendingOf (p.out side)) : CmdInv processId { s with agent := agent } := by
  refine ⟨p', seen, ⟨hframe.procs, hframe.id.trans ha.id, hframe.entries,
      fun side => (hframe.stream side).trans (ha.stream side), hchunks ▸ ha.whole,
      fun side c hmem => ha.pending side c (hpending side c hmem), hchunks ▸ ha.appended, fun e' he' => ?_, ha.atExit,
      fun hnone => hframe.waiting (ha.exited hnone)⟩,
    hc.mono rfl ⟨[], ?_, by simp⟩ (fun e' he' => ?_) hframe.readers fun hset => ⟨hset, rfl⟩⟩
  · obtain ⟨e, he, houtput, -, hsame⟩ := hentry e' he'
    rw [houtput, hchunks]
    refine ⟨(ha.entry e he).1, fun side => ?_⟩
    rw [hsame]
    exact (ha.entry e he).2 side
  · rw [hchunks, List.append_nil]
  · obtain ⟨e, he, -, hseq, -⟩ := hentry e' he'
    exact ⟨e, he, hseq⟩

/-- An output task appends the chunk it holds. -/
theorem cmdInv_appended {agent : LocalProcess.State} {side : Side} {chunk : Bytes} {e : RunningProcess}
    (hlimit : total s ≤ retainedOutputBytesPerProcess) (ha : AgentOk processId s p) (hc : ClientOk processId s p seen)
    (hframe : AgentFrame s agent p p') (he : s.agent.processes processId = some (.running e))
    (he' : agent.processes processId = some (.running (appendOutput p.id (p.out side).stream chunk e).1))
    (hchunks : chunksOf p' = chunksOf p ++ [⟨e.nextSeq, (p.out side).stream, chunk⟩])
    (hpending : pendingOf (p.out side) = chunk :: pendingOf (p'.out side))
    (hother : ∀ side', side' ≠ side → pendingOf (p'.out side') = pendingOf (p.out side')) :
    CmdInv processId { s with agent := agent } := by
  have hnew : ∀ side', streamBytes side' (chunksOf p') ++ (pendingOf (p'.out side')).flatten =
      streamBytes side' (chunksOf p) ++ (pendingOf (p.out side')).flatten := by
    intro side'
    rw [hchunks, streamBytes_append, List.append_assoc]
    by_cases hside : side' = side
    · subst hside
      rw [hpending, streamBytes_cons_self (ha.stream side')]
      simp [streamBytes]
    · have hne : streamOf side ≠ streamOf side' := fun heq => hside (streamOf_injective heq).symm
      rw [hother side' hside, streamBytes_cons_ne (by rwa [ha.stream])]
      rfl
  have hsum : ∀ side', streamBytes side' (chunksOf p') ++ ((pendingOf (p'.out side')).flatten ++ s.pipe side') =
      s.written side' := by
    intro side'
    rw [← List.append_assoc, hnew, List.append_assoc]
    exact (ha.entry e he).2 side'
  refine ⟨p', seen, ⟨hframe.procs, hframe.id.trans ha.id, hframe.entries,
      fun side' => (hframe.stream side').trans (ha.stream side'), fun c hmem => ?_, fun side' c hmem => ?_,
      fun side' => hsum side' ▸ List.prefix_append _ _, fun e₁ he₁ => ?_, ha.atExit,
      fun hnone => hframe.waiting (ha.exited hnone)⟩,
    hc.mono rfl ⟨_, hchunks, fun c hmem => ?_⟩ (fun e₁ he₁ => ?_) hframe.readers fun hset => ⟨hset, rfl⟩⟩
  · rw [hchunks] at hmem
    rcases List.mem_append.mp hmem with hmem | hmem
    · exact ha.whole c hmem
    · rw [List.mem_singleton.mp hmem]
      exact ⟨ha.pending side chunk (by rw [hpending]; exact List.mem_cons_self), side, ha.stream side⟩
  · by_cases hside : side' = side
    · subst hside
      exact ha.pending side' c (by rw [hpending]; exact List.mem_cons_of_mem _ hmem)
    · rw [hother side' hside] at hmem
      exact ha.pending side' c hmem
  · cases he'.symm.trans he₁
    exact ⟨(appendOutput_output ha hlimit he ⟨_, hpending⟩).trans hchunks.symm, hsum⟩
  · rw [List.mem_singleton.mp hmem]
    exact hc.below e he
  · cases he'.symm.trans he₁
    exact ⟨e, he, Nat.le_succ _⟩

theorem cmdInv_task {t : TaskId} (hlimit : total s ≤ retainedOutputBytesPerProcess) (ha : AgentOk processId s p)
    (hc : ClientOk processId s p seen) (hs : step processId s (.task t) = some s') : CmdInv processId s' := by
  obtain ⟨agent, hstep, rfl⟩ := onAgent_eq hs
  obtain ⟨q, hq, hagent⟩ := Option.bind_eq_some_iff.mp hstep
  rw [ha.procs] at hq
  cases hq
  obtain ⟨⟨entry, p'⟩, hproc, hagent⟩ := Option.map_eq_some_iff.mp hagent
  have hframe : AgentFrame s agent p p' := by
    refine ⟨procStep_frame hproc, ?_, entryInv_step ha.entries hstep, fun k r hr => ?_⟩
    · rw [← hagent, ha.procs]
      rfl
    · rw [← hagent]
      dsimp only
      split_ifs
      · exact ⟨r.wake 0, by rw [List.getElem?_map, hr, Option.map_some], answer_wake r 0⟩
      · exact ⟨r, hr, rfl, rfl⟩
  have htable : agent.processes processId = entry := by
    rw [← hagent, ha.id]
    exact Function.update_self ..
  rw [ha.id] at hproc
  cases procStep_output hproc with
  | keeps hchunks hpending hentry =>
    refine cmdInv_same_chunks ha hc hframe hchunks (fun side c hmem => hpending side ▸ hmem) fun e' he' => ?_
    obtain ⟨e, he, houtput, hseq⟩ := hentry e' (htable.symm.trans he')
    exact ⟨e, he, houtput, hseq, hpending⟩
  | appends side chunk e he he' hchunks hpending hother =>
    exact cmdInv_appended hlimit ha hc hframe he (htable.trans he') hchunks hpending hother
  | drops hchunks hpending hgone =>
    exact cmdInv_same_chunks ha hc hframe hchunks hpending fun e' he' => absurd (htable.symm.trans he') (hgone e')

theorem cmdInv_poll (ha : AgentOk processId s p) (hc : ClientOk processId s p seen)
    (hs : step processId s .poll = some s') : CmdInv processId s' := by
  simp only [step] at hs
  split_ifs at hs
  obtain ⟨m, hm, rfl⟩ := Option.map_eq_some_iff.mp hs
  obtain ⟨agent, hagent, rfl⟩ := onAgent_eq hm
  have hentries := entryInv_step ha.entries hagent
  cases hagent
  refine ⟨p, seen, { ha with entries := hentries },
    ⟨hc.split, hc.old, hc.below, hc.text, fun k hk => ?_, fun code hcode => ?_⟩⟩
  · cases hk
    refine ⟨_, List.getElem?_concat_length, rfl, fun resp hresp => ?_⟩
    dsimp only at hresp
    split at hresp <;> cases hresp
  · cases hcode

/-- What a read of the command's entry gets. -/
theorem responseOk_read {e : RunningProcess} (ha : AgentOk processId s p) (hc : ClientOk processId s p seen)
    (he : s.agent.processes processId = some (.running e))
    (hcaught : e.exitCode.isSome → ∀ side, Arrived s side) :
    ResponseOk s p seen (readResponse (readParams processId s.client.afterSeq) e) := by
  obtain ⟨houtput, hsum⟩ := ha.entry e he
  obtain ⟨rest, hrest, hlater⟩ := hc.split
  have hok := ha.localInv.2 e he
  have hnew : e.output.filter (fun c => s.client.afterSeq < c.seq) = rest := by
    have hold : seen.filter (fun c => s.client.afterSeq < c.seq) = [] := by
      refine List.filter_eq_nil_iff.mpr fun c hmem => ?_
      simpa using hc.old c hmem
    have hall : rest.filter (fun c => s.client.afterSeq < c.seq) = rest := by
      refine List.filter_eq_self.mpr fun c hmem => ?_
      simpa using hlater c hmem
    rw [houtput, hrest, List.filter_append, hold, hall, List.nil_append]
  have hmax : (readParams processId s.client.afterSeq).maxBytes.getD usizeMax = 1024 * 1024 := rfl
  have hbytes : outputBytes rest ≤ 1024 * 1024 := by
    have hlimit : e.retainedBytes ≤ 1024 * 1024 := hok.limit
    rw [hok.bytes, houtput, hrest] at hlimit
    simp only [outputBytes, List.map_append, List.sum_append] at hlimit ⊢
    omega
  have hchunks : (readResponse (readParams processId s.client.afterSeq) e).chunks = rest := by
    have hpage : (readResponse (readParams processId s.client.afterSeq) e).chunks =
        (readLoop ((readParams processId s.client.afterSeq).maxBytes.getD usizeMax)
          (e.output.filter fun c => s.client.afterSeq < c.seq) [] 0 e.nextSeq).1 := rfl
    rw [hpage, hnew, hmax]
    refine (readLoop_all (fun c hmem => (ha.whole c ?_).1.1) (by omega)).trans (List.nil_append _)
    rw [hrest]
    exact List.mem_append_right _ hmem
  have hseen : seen ++ (readResponse (readParams processId s.client.afterSeq) e).chunks = chunksOf p := by
    rw [hchunks, hrest]
  refine ⟨rfl, hseen ▸ List.prefix_refl _, fun hset => ?_⟩
  have hcode : e.exitCode.isSome = true := hset
  refine ⟨?_, fun side => ?_⟩
  · cases hnone : s.exited with
    | some code => rfl
    | none =>
      rw [hok.exit, ha.exited hnone] at hcode
      cases hcode
  · -- both are prefixes of what was written
    rw [hseen]
    refine List.prefix_of_prefix_length_le (ha.atExit side) (ha.appended side) ?_
    have hlen := congrArg List.length (hsum side)
    have hle := hcaught hcode side
    simp only [Arrived, inTransit, ha.procs, List.flatMap_singleton, List.length_append] at hle hlen
    omega

/-- The client's read goes on. -/
theorem readerOk_step {k : ℕ} {r r' : Reader} (ha : AgentOk processId s p) (hc : ClientOk processId s p seen)
    (hcaught : CaughtUp processId s .reader) (hk : s.client.phase = .reading k) (hr : s.agent.readers[k]? = some r)
    (hok : ReaderOk processId s p seen r) (hread : readStep s.agent r = some r') : ReaderOk processId s p seen r' := by
  unfold readStep at hread
  split at hread
  · rename_i hphase
    dsimp only at hread
    rw [hok.params] at hread
    split at hread
    · cases hread
      exact ⟨rfl, fun resp hresp => by cases hresp⟩
    · cases hread
      exact ⟨rfl, fun resp hresp => by cases hresp⟩
    · rename_i e he
      cases hread
      refine ⟨rfl, fun resp hresp => ?_⟩
      cases hresp
      have hentry : s.agent.processes processId = some (.running e) := he
      refine responseOk_read ha hc hentry fun hcode => ?_
      have hfinds : findsExit processId s = true := by
        rw [findsExit, hk, hentry]
        simp [hr, hphase, hcode]
      obtain ⟨hstdout, hstderr⟩ := hcaught hfinds
      intro side
      cases side with
      | stdout => exact hstdout
      | stderr => exact hstderr
  · rename_i response notify hphase
    have hresponse := hok.response response (by rw [hphase]; rfl)
    split_ifs at hread
    · cases hread
      refine ⟨hok.params, fun resp hresp => ?_⟩
      cases hresp
      exact hresponse
    · cases hread
      exact ⟨hok.params, fun resp hresp => by cases hresp⟩
  · cases hread
  · cases hread

theorem cmdInv_reader (ha : AgentOk processId s p) (hc : ClientOk processId s p seen)
    (hcaught : CaughtUp processId s .reader) (hs : step processId s .reader = some s') : CmdInv processId s' := by
  simp only [step] at hs
  split at hs
  case h_2 => cases hs
  rename_i k hk
  obtain ⟨r, hr, hok⟩ := hc.reading k hk
  obtain ⟨agent, hagent, rfl⟩ := onAgent_eq hs
  have hentries := entryInv_step ha.entries hagent
  obtain ⟨r₁, hr₁, hagent⟩ := Option.bind_eq_some_iff.mp hagent
  obtain rfl := Option.some.inj (hr.symm.trans hr₁)
  obtain ⟨r', hread, rfl⟩ := Option.map_eq_some_iff.mp hagent
  have hreader := readerOk_step ha hc hcaught hk hr hok hread
  refine ⟨p, seen, { ha with entries := hentries },
    ⟨hc.split, hc.old, hc.below, hc.text, fun k' hk' => ?_, fun code hcode => ?_⟩⟩
  · obtain rfl : k' = k := by
      have hsame := hk'.symm.trans hk
      cases hsame
      rfl
    exact ⟨r', Lists.getElem?_set_self_of_some hr, hreader.params, fun resp hresp =>
      ⟨(hreader.response resp hresp).failure, (hreader.response resp hresp).chunks,
        (hreader.response resp hresp).exited⟩⟩
  · have hboth := hcode.symm.trans hk
    cases hboth

theorem cmdInv_elapse (ha : AgentOk processId s p) (hc : ClientOk processId s p seen)
    (hs : step processId s .elapse = some s') : CmdInv processId s' := by
  simp only [step] at hs
  split at hs
  case h_2 => cases hs
  rename_i k hk
  obtain ⟨agent, hagent, rfl⟩ := onAgent_eq hs
  have hentries := entryInv_step ha.entries hagent
  obtain ⟨r, hr, rfl⟩ := Option.map_eq_some_iff.mp hagent
  refine ⟨p, seen, { ha with entries := hentries }, hc.mono rfl ⟨[], (List.append_nil _).symm, by simp⟩
    (fun e he => ⟨e, he, le_rfl⟩) (fun j q hj => ?_) fun hset => ⟨hset, rfl⟩⟩
  dsimp only
  by_cases hjk : j = k
  · subst hjk
    obtain rfl := Option.some.inj (hr.symm.trans hj)
    exact ⟨r.elapse, Lists.getElem?_set_self_of_some hr, answer_elapse r⟩
  · exact ⟨q, by rw [List.getElem?_set_ne (Ne.symm hjk), hj], rfl, rfl⟩

theorem cmdInv_receive (ha : AgentOk processId s p) (hc : ClientOk processId s p seen)
    (hs : step processId s .receive = some s') : CmdInv processId s' := by
  simp only [step] at hs
  split at hs
  case h_2 => cases hs
  rename_i k hk
  obtain ⟨r, hr, hok⟩ := hc.reading k hk
  obtain ⟨r₁, hr₁, hs⟩ := Option.bind_eq_some_iff.mp hs
  obtain rfl := Option.some.inj (hr.symm.trans hr₁)
  split at hs
  · rename_i resp hphase
    cases hs
    obtain ⟨hfailure, ⟨newer, hnewer⟩, hexited⟩ := hok.response resp (by rw [hphase]; rfl)
    have hmem : ∀ c ∈ resp.chunks, c ∈ chunksOf p := fun c hmem => by
      rw [← hnewer]
      exact List.mem_append_left _ (List.mem_append_right _ hmem)
    obtain ⟨htext, hafter, hcovers, hlast⟩ := @collected_foldl s.client _ fun c hc' => ha.whole c (hmem c hc')
    have hhandle : s.client.handle resp = { resp.chunks.foldl Client.collect s.client with
        phase := if resp.exited then .finished (resp.exitCode.getD 0) else .polling } := by
      simp only [Client.handle, hfailure]
    rw [hhandle]
    have hsorted := chunksOf_increasing ha.localInv.1
    obtain ⟨rest, hrest, hlater⟩ := hc.split
    -- what is left of the chunks comes after the response
    have hrest' : rest = resp.chunks ++ newer := by
      rw [hrest, List.append_assoc] at hnewer
      exact (List.append_cancel_left hnewer).symm
    rw [hrest, hrest'] at hsorted
    refine ⟨p, seen ++ resp.chunks, { ha with }, ⟨newer, hnewer.symm, fun c hmem' => ?_⟩, fun c hmem' => ?_,
      fun e he => ?_,
      fun side => ?_, fun k' hk' => ?_, fun code hcode => ?_⟩
    · rcases hlast with heq | ⟨d, hd, heq⟩
      · rw [heq]
        exact hlater c (hrest' ▸ List.mem_append_right _ hmem')
      · rw [heq]
        exact (List.pairwise_append.mp (List.pairwise_append.mp hsorted).2.1).2.2 d hd c hmem'
    · rcases List.mem_append.mp hmem' with hmem' | hmem'
      · exact (hc.old c hmem').trans hafter
      · exact hcovers c hmem'
    · rcases hlast with heq | ⟨d, hd, heq⟩
      · rw [heq]
        exact hc.below e he
      · rw [heq]
        exact (ha.localInv.2 e he).below d ((ha.entry e he).1 ▸ hmem d hd)
    · rw [streamBytes_append, ← hc.text side]
      exact htext side
    · dsimp only at hk'
      split_ifs at hk'
    · dsimp only at hcode
      split_ifs at hcode with hset
      exact hexited hset
  · cases hs
    exact ⟨p, seen, { ha with }, hc.split, hc.old, hc.below, hc.text, fun k' hk' => (by cases hk'),
      fun code hcode => by cases hcode⟩
  · cases hs

theorem written_step {a : Act} (hs : step processId s a = some s') (side : Side) :
    (s.written side).length ≤ (s'.written side).length := by
  cases a with
  | write side' bytes =>
    simp only [step] at hs
    split_ifs at hs
    cases hs
    dsimp only
    by_cases hside : side = side'
    · rw [hside, Function.update_self, List.length_append]
      omega
    · rw [Function.update_of_ne hside]
  | closeEnd side' =>
    cases hs
    exact le_rfl
  | readPipe side' n =>
    simp only [step] at hs
    split_ifs at hs
    obtain ⟨m, hm, rfl⟩ := Option.map_eq_some_iff.mp hs
    obtain ⟨agent, -, rfl⟩ := onAgent_eq hm
    exact le_rfl
  | endPipe side' =>
    simp only [step] at hs
    split_ifs at hs
    obtain ⟨agent, -, rfl⟩ := onAgent_eq hs
    exact le_rfl
  | exit code =>
    simp only [step] at hs
    split_ifs at hs
    cases hs
    exact le_rfl
  | reap =>
    obtain ⟨code, -, hs⟩ := Option.bind_eq_some_iff.mp hs
    obtain ⟨agent, -, rfl⟩ := onAgent_eq hs
    exact le_rfl
  | task t =>
    obtain ⟨agent, -, rfl⟩ := onAgent_eq hs
    exact le_rfl
  | poll =>
    simp only [step] at hs
    split_ifs at hs
    obtain ⟨m, hm, rfl⟩ := Option.map_eq_some_iff.mp hs
    obtain ⟨agent, -, rfl⟩ := onAgent_eq hm
    exact le_rfl
  | reader | elapse =>
    simp only [step] at hs
    split at hs
    · obtain ⟨agent, -, rfl⟩ := onAgent_eq hs
      exact le_rfl
    · cases hs
  | receive =>
    simp only [step] at hs
    split at hs
    · obtain ⟨r, -, hs⟩ := Option.bind_eq_some_iff.mp hs
      split at hs <;> cases hs <;> exact le_rfl
    · cases hs

/-- As long as the output stays within the agent's limit. -/
theorem cmdInv_step {a : Act} (h : total s ≤ retainedOutputBytesPerProcess → CmdInv processId s)
    (hcaught : CaughtUp processId s a) (hs : step processId s a = some s') :
    total s' ≤ retainedOutputBytesPerProcess → CmdInv processId s' := by
  intro htotal
  have hlimit : total s ≤ retainedOutputBytesPerProcess := by
    have hstdout := written_step hs .stdout
    have hstderr := written_step hs .stderr
    unfold total at *
    omega
  obtain ⟨p, seen, ha, hc⟩ := h hlimit
  cases a with
  | write side bytes => exact cmdInv_write ha hc hs
  | closeEnd side =>
    cases hs
    exact ⟨p, seen, { ha with }, hc.of_eq rfl rfl rfl rfl fun hset => ⟨hset, rfl⟩⟩
  | readPipe side n => exact cmdInv_readPipe ha hc hcaught hs
  | endPipe side => exact cmdInv_endPipe ha hc hs
  | exit code => exact cmdInv_exit ha hc hs
  | reap => exact cmdInv_reap ha hc hs
  | task t => exact cmdInv_task hlimit ha hc hs
  | poll => exact cmdInv_poll ha hc hs
  | reader => exact cmdInv_reader ha hc hcaught hs
  | elapse => exact cmdInv_elapse ha hc hs
  | receive => exact cmdInv_receive ha hc hs

theorem cmdInv_init (processId : ProcessId) : CmdInv processId (init processId) := by
  have hentry : (started processId).processes processId = some (.running (.new 0)) := by
    simp [started]
  refine ⟨.new processId false, [], ⟨rfl, rfl, fun i q hi _ => ?_, ?_, ?_, ?_, ?_, fun e he => ?_, ?_, ?_⟩,
    ⟨[], rfl, by simp⟩, by simp, fun e he => ?_, ?_, fun k hk => (by cases hk), fun code hcode => by cases hcode⟩
  · obtain rfl : q = .new processId false := List.mem_singleton.mp (List.mem_of_getElem? hi)
    rw [show (Proc.new processId false).id = processId from rfl]
    exact hentry ▸ localInv_new processId false 0
  · intro side
    cases side <;> rfl
  · exact fun c hmem => absurd hmem List.not_mem_nil
  · intro side c hmem
    cases side <;> exact absurd hmem List.not_mem_nil
  · exact fun side => List.prefix_refl _
  · obtain rfl : e = .new 0 := by
      have hsame := hentry.symm.trans he
      cases hsame
      rfl
    refine ⟨rfl, fun side => ?_⟩
    cases side <;> rfl
  · exact fun side => List.prefix_refl _
  · exact fun _ => rfl
  · obtain rfl : e = .new 0 := by
      have hsame := hentry.symm.trans he
      cases hsame
      rfl
    exact Nat.zero_lt_one
  · intro side
    cases side <;> rfl

/-- Whatever the interleaving: when every read that finds the exit code finds what was written
before the exit, and no character is cut, the client ends with every byte written before the exit,
in order and once, and with nothing that was not written. -/
theorem collects_when_caught_up (processId : ProcessId) (acts : List Act) (s : State)
    (hrun : run (step processId) (init processId) acts = some s)
    (hcaught : RunOk (step processId) (CaughtUp processId) (init processId) acts)
    (htotal : total s ≤ retainedOutputBytesPerProcess) (code : Int32) (hfinished : s.client.phase = .finished code)
    (side : Side) :
    s.atExit side <+: Utf8.encode (s.client.text side) ∧ Utf8.encode (s.client.text side) <+: s.written side := by
  obtain ⟨p, seen, ha, hc⟩ := run_inv (fun s => total s ≤ retainedOutputBytesPerProcess → CmdInv processId s)
    (fun _ _ _ h hp hs => cmdInv_step h hp hs) (fun _ => cmdInv_init processId) hcaught hrun htotal
  rw [hc.text side]
  refine ⟨(hc.finished code hfinished).2 side, ?_⟩
  obtain ⟨rest, hrest, -⟩ := hc.split
  refine List.IsPrefix.trans ?_ (ha.appended side)
  rw [hrest, streamBytes_append]
  exact List.prefix_append _ _

/-- The process writes a line and exits; its output is in the table before the exit is. -/
def caughtUpRun : List Act :=
  [.write .stdout [104, 10], .exit 0, .readPipe .stdout 2, .task (.out .stdout), .task (.out .stdout), .reap,
    .task .exit, .poll, .reader, .reader, .receive]

/-- The exit is recorded while the line is in the pipe. -/
def overtakenRun : List Act :=
  [.write .stdout [104, 10], .exit 0, .reap, .task .exit, .poll, .reader, .reader, .receive]

theorem collects_in_caughtUpRun :
    ∃ s, run (step "c") (init "c") caughtUpRun = some s ∧
      RunOk (step "c") (CaughtUp "c") (init "c") caughtUpRun ∧ s.client.phase = .finished 0 ∧
      s.client.stdout = "h\n" ∧ s.atExit .stdout <+: Utf8.encode (s.client.text .stdout) := by
  obtain ⟨s, hs, hphase, htext, htotal⟩ : ∃ s, run (step "c") (init "c") caughtUpRun = some s ∧
      s.client.phase = .finished 0 ∧ s.client.stdout = "h\n" ∧ total s = 2 := by
    refine ⟨_, rfl, ?_, ?_, ?_⟩
    · rfl
    · rfl
    · rfl
  have hok : RunOk (step "c") (CaughtUp "c") (init "c") caughtUpRun := by
    refine runOk_cons rfl trivial (runOk_cons rfl trivial (runOk_cons rfl ?_ ?_))
    · exact ⟨['h', '\n'], rfl⟩
    refine runOk_cons rfl trivial (runOk_cons rfl trivial (runOk_cons rfl trivial (runOk_cons rfl trivial ?_)))
    refine runOk_cons rfl trivial (runOk_cons rfl ?_ (runOk_cons rfl ?_ (runOk_cons rfl trivial trivial)))
    · exact fun _ => ⟨by decide, by decide⟩
    · exact fun _ => ⟨by decide, by decide⟩
  have hlimit : total s ≤ retainedOutputBytesPerProcess := by
    rw [htotal]
    decide
  exact ⟨s, hs, hok, hphase, htext, (collects_when_caught_up "c" _ s hs hok hlimit 0 hphase .stdout).1⟩

theorem output_lost_at_exit :
    ∃ s, run (step "c") (init "c") overtakenRun = some s ∧ s.client.phase = .finished 0 ∧
      total s ≤ retainedOutputBytesPerProcess ∧ s.atExit .stdout = [104, 10] ∧ s.client.stdout = "" := by
  refine ⟨_, rfl, ?_, ?_, ?_, ?_⟩
  · rfl
  · decide
  · rfl
  · rfl

end Nexal.RunCommand

/-! The text that `runCommand` makes of its output. Each chunk is decoded for itself, and the reads
from the pipe cut the output wherever their buffer or the time says. -/

namespace Nexal.RunCommand

open LocalProcess

def sideOf : ExecOutputStream → Side
  | .stderr => .stderr
  | _ => .stdout

def chunksOn (side : Side) (responses : List ReadResponse) : List Bytes :=
  ((responses.flatMap (·.chunks)).filter (sideOf ·.stream = side)).map (·.chunk)

def Client.start : Client := ⟨"", "", 0, .polling⟩

theorem text_collect_toList (c : Client) (chunk : RetainedOutputChunk) (side : Side) :
    ((c.collect chunk).text side).toList =
      (c.text side).toList ++ if sideOf chunk.stream = side then Utf8.decodeFrom .idle chunk.chunk else [] := by
  have hdecode : (Utf8.decode chunk.chunk).toList = Utf8.decodeFrom .idle chunk.chunk := String.toList_ofList
  cases side <;> cases hstream : chunk.stream <;> simp [Client.collect, Client.text, sideOf, hstream, hdecode]

theorem text_foldl_collect (c : Client) (chunks : List RetainedOutputChunk) (side : Side) :
    ((chunks.foldl Client.collect c).text side).toList =
      (c.text side).toList ++
        ((chunks.filter (sideOf ·.stream = side)).map (·.chunk)).flatMap (Utf8.decodeFrom .idle) := by
  induction chunks generalizing c with
  | nil => exact (List.append_nil _).symm
  | cons chunk chunks ih =>
    rw [List.foldl_cons, ih, text_collect_toList]
    by_cases hside : sideOf chunk.stream = side
    · simp only [hside, if_true, List.filter_cons, decide_true, List.map_cons, List.flatMap_cons, List.append_assoc]
    · simp only [hside, if_false, List.filter_cons, decide_false, Bool.false_eq_true, List.append_nil]

theorem text_handle (c : Client) (resp : ReadResponse) (side : Side) :
    (c.handle resp).text side = (resp.chunks.foldl Client.collect c).text side := by
  unfold Client.handle
  cases resp.failure <;> cases side <;> rfl

theorem text_foldl_handle (c : Client) (responses : List ReadResponse) (side : Side) :
    ((responses.foldl Client.handle c).text side).toList =
      (c.text side).toList ++ (chunksOn side responses).flatMap (Utf8.decodeFrom .idle) := by
  induction responses generalizing c with
  | nil => exact (List.append_nil _).symm
  | cons resp responses ih =>
    have hsplit : chunksOn side (resp :: responses) = chunksOn side [resp] ++ chunksOn side responses := by
      simp [chunksOn]
    have hone : chunksOn side [resp] = (resp.chunks.filter (sideOf ·.stream = side)).map (·.chunk) := by
      simp [chunksOn]
    rw [List.foldl_cons, ih, text_handle, text_foldl_collect, hsplit, List.flatMap_append, hone, List.append_assoc]

/-- For whatever answers the reads give: the text of a stream is the decoding of its bytes exactly
when no chunk of it ends within a UTF-8 sequence with which the next byte goes on. -/
theorem text_decoded_iff (responses : List ReadResponse) (side : Side) :
    (responses.foldl Client.handle .start).text side = Utf8.decode (chunksOn side responses).flatten ↔
      Utf8.Uncut (chunksOn side responses) := by
  have htext := text_foldl_handle .start responses side
  have hempty : (Client.start.text side).toList = [] := by cases side <;> rfl
  rw [hempty, List.nil_append] at htext
  rw [← Utf8.decode_chunks_iff, ← htext, Utf8.decode, ← String.toList_inj, String.toList_ofList]

def onStdout (chunks : List Bytes) : ReadResponse where
  chunks := chunks.zipIdx.map fun p => ⟨p.2 + 1, .stdout, p.1⟩
  nextSeq := chunks.length + 1
  exited := true
  exitCode := some 0
  closed := true
  failure := none

/-- The two bytes of an `é`, in one chunk and in two. -/
theorem text_depends_on_chunks :
    (chunksOn .stdout [onStdout [[0xC3, 0xA9]]]).flatten = (chunksOn .stdout [onStdout [[0xC3], [0xA9]]]).flatten ∧
      ([onStdout [[0xC3, 0xA9]]].foldl Client.handle .start).stdout = "é" ∧
      ([onStdout [[0xC3], [0xA9]]].foldl Client.handle .start).stdout =
        String.ofList [Utf8.replacement, Utf8.replacement] := by
  refine ⟨by decide, by decide, by decide⟩

end Nexal.RunCommand
