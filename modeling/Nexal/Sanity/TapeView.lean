import Nexal.Lib.Greedy
import Nexal.Spec.TapeView

/-! What the loop of `applyEdits` computes. An amendment takes effect at the first entry it
finds in its way and hides everything up to its largest target; the entries where that
happens are picked greedily from the left. -/

namespace Nexal.Tape

theorem le_foldl_max {x id : JsNumber} {ids : List JsNumber} (h : x ≤ id ∨ x ∈ ids) :
    x ≤ ids.foldl max id := by
  induction ids generalizing id with
  | nil => simpa using h
  | cons id' ids ih =>
    apply ih
    rcases h with h | h
    · exact Or.inl (le_max_of_le_left h)
    · rcases List.mem_cons.mp h with rfl | h
      · exact Or.inl (le_max_right id x)
      · exact Or.inr h

theorem le_mathMax {ids : List JsNumber} {x : JsNumber} (h : x ∈ ids) : x ≤ mathMax ids := by
  cases ids with
  | nil => cases h
  | cons id ids =>
    apply le_foldl_max
    rcases List.mem_cons.mp h with rfl | h
    · exact Or.inl le_rfl
    · exact Or.inr h

namespace TapeContent

variable (tape : TapeContent)

def redactedIds : List JsNumber := tape.entries.filterMap redactionTarget

def allAmendments : List Amendment := tape.entries.filterMap amendmentOf

def amendments : List Amendment := tape.allAmendments.filter Amendment.hasEffect

def redacted (e : TapeEntry) : Bool := tape.redactedIds.contains (e.id : JsNumber)

/-- The earliest amendment with an effect on the entry. -/
def first (e : TapeEntry) : Option Amendment := tape.amendments.find? fun a => a.targets e

/-- An entry that asks for an amendment: neither an edit nor redacted, but targeted. -/
def amended (e : TapeEntry) : Bool := !e.isEdit && !tape.redacted e && (tape.first e).isSome

/-- The largest target of the amendment that entry `h` asks for reaches over the later `e`. -/
def covers (h e : TapeEntry) : Bool :=
  decide (h.id < e.id) && (tape.first h).any fun a => decide ((e.id : JsNumber) ≤ mathMax a.targetIds)

/-- The entries at which an amendment takes effect: those that ask for one and are not under
the reach of an amendment that took effect before. -/
def heads : List TapeEntry := picks tape.amended tape.covers [] tape.entries

def hidden (e : TapeEntry) : Bool := e.isEdit || tape.redacted e || tape.heads.any (tape.covers · e)

def shownFor (e : TapeEntry) : List Shown :=
  if tape.hidden e then []
  else match tape.first e with
    | some a => a.replacement.map (.replacement a e.id)
    | none => [.entry e]

variable {tape}

theorem not_covers_of_le {h e : TapeEntry} (hid : e.id ≤ h.id) : tape.covers h e = false := by
  unfold covers
  rw [decide_eq_false (Nat.not_lt.mpr hid), Bool.false_and]

theorem first_targets {e : TapeEntry} {a : Amendment} (h : tape.first e = some a) :
    (e.id : JsNumber) ∈ a.targetIds := by
  have := List.find?_some h
  simpa [Amendment.targets] using this

theorem first_mem {e : TapeEntry} {a : Amendment} (h : tape.first e = some a) : a ∈ tape.amendments :=
  List.mem_of_find?_eq_some h

/-- The reach of an amendment has no gaps. -/
theorem covers_of_between {h e e' : TapeEntry} (hcov : tape.covers h e' = true) (hlt : h.id < e.id)
    (hle : e.id ≤ e'.id) : tape.covers h e = true := by
  simp only [covers, Bool.and_eq_true, decide_eq_true_eq] at hcov ⊢
  refine ⟨hlt, ?_⟩
  cases hf : tape.first h with
  | none => simp [hf] at hcov
  | some a =>
    simp only [hf, Option.any_some, decide_eq_true_eq] at hcov ⊢
    exact le_trans (Nat.cast_le.mpr hle) hcov.2

/-- At the suffix `es` of the tape, after the heads `hs`: the loop skips exactly what the heads
cover, and of the other entries it still knows which are amended. -/
structure LoopInv (tape : TapeContent) (hs : List TapeEntry) (skipTo : Option JsNumber)
    (amendedIds : List JsNumber) (es : List TapeEntry) : Prop where
  before : ∀ h ∈ hs, ∀ e ∈ es, h.id < e.id
  skip : ∀ e ∈ es, (skipTo.any fun maxId => decide ((e.id : JsNumber) ≤ maxId)) = hs.any (tape.covers · e)
  amended : ∀ e ∈ es, hs.any (tape.covers · e) = false →
    amendedIds.contains (e.id : JsNumber) = (tape.first e).isSome

variable {hs es : List TapeEntry} {skipTo : Option JsNumber} {amendedIds : List JsNumber} {e : TapeEntry}

theorem LoopInv.skipped (h : LoopInv tape hs skipTo amendedIds (e :: es)) :
    LoopInv tape hs skipTo amendedIds es where
  before := fun x hx e' he' => h.before x hx e' (List.mem_cons_of_mem e he')
  skip := fun e' he' => h.skip e' (List.mem_cons_of_mem e he')
  amended := fun e' he' => h.amended e' (List.mem_cons_of_mem e he')

/-- Past the first entry that no head covers, no head covers anything. -/
theorem LoopInv.uncovered (h : LoopInv tape hs skipTo amendedIds (e :: es))
    (hsorted : (e :: es).Pairwise fun a b => a.id < b.id) (hcov : hs.any (tape.covers · e) = false) :
    ∀ e' ∈ es, hs.any (tape.covers · e') = false := by
  intro e' he'
  refine List.any_eq_false.mpr fun x hx hcov' => ?_
  have hle := Nat.le_of_lt (List.rel_of_pairwise_cons hsorted he')
  exact List.any_eq_false.mp hcov x hx (covers_of_between hcov' (h.before x hx e List.mem_cons_self) hle)

theorem LoopInv.passed (h : LoopInv tape hs skipTo amendedIds (e :: es))
    (hsorted : (e :: es).Pairwise fun a b => a.id < b.id) (hcov : hs.any (tape.covers · e) = false) :
    LoopInv tape hs none amendedIds es where
  before := h.skipped.before
  skip := fun e' he' => by rw [h.uncovered hsorted hcov e' he', Option.any_none]
  amended := h.skipped.amended

theorem LoopInv.applied (h : LoopInv tape hs skipTo amendedIds (e :: es))
    (hsorted : (e :: es).Pairwise fun a b => a.id < b.id) (hcov : hs.any (tape.covers · e) = false)
    {a : Amendment} (hfirst : tape.first e = some a) :
    LoopInv tape (hs ++ [e]) (some (mathMax a.targetIds))
      (amendedIds.filter fun id => !a.targetIds.contains id) es := by
  have hlater : ∀ e' ∈ es, e.id < e'.id := fun e' he' => List.rel_of_pairwise_cons hsorted he'
  have hany : ∀ e' ∈ es, (hs ++ [e]).any (tape.covers · e') =
      decide ((e'.id : JsNumber) ≤ mathMax a.targetIds) := by
    intro e' he'
    rw [List.any_append, h.uncovered hsorted hcov e' he']
    simp [covers, hlater e' he', hfirst]
  refine ⟨fun x hx e' he' => ?_, fun e' he' => ?_, fun e' he' hno => ?_⟩
  · rcases List.mem_append.mp hx with hx | hx
    · exact h.skipped.before x hx e' he'
    · rw [List.mem_singleton.mp hx]
      exact hlater e' he'
  · rw [hany e' he', Option.any_some]
  · rw [hany e' he'] at hno
    have hnot : (e'.id : JsNumber) ∉ a.targetIds := fun hmem => of_decide_eq_false hno (le_mathMax hmem)
    rw [← h.skipped.amended e' he' (h.uncovered hsorted hcov e' he'), Bool.eq_iff_iff]
    simp [hnot]

/-- What the loop pushes is what `shownFor` says of each entry. -/
theorem applyLoop_eq (hinv : LoopInv tape hs skipTo amendedIds es)
    (hsorted : es.Pairwise fun a b => a.id < b.id)
    (hheads : tape.heads = picks tape.amended tape.covers hs es) :
    applyLoop tape.redactedIds tape.amendments skipTo amendedIds es = es.flatMap tape.shownFor := by
  induction es generalizing hs skipTo amendedIds with
  | nil => rfl
  | cons e es ih =>
    have hes := (List.pairwise_cons.mp hsorted).2
    have hcovered : tape.heads.any (tape.covers · e) = hs.any (tape.covers · e) := by
      rw [hheads]
      refine picks_any_covers (not_covers_of_le le_rfl) fun b hb => not_covers_of_le ?_
      exact Nat.le_of_lt (List.rel_of_pairwise_cons hsorted hb)
    rw [List.flatMap_cons]
    unfold applyLoop
    rw [hinv.skip e List.mem_cons_self]
    cases hcov : hs.any (tape.covers · e) with
    | true =>
      have hnil : tape.shownFor e = [] := by simp [shownFor, hidden, hcovered, hcov]
      have hstep : picks tape.amended tape.covers hs (e :: es) = picks tape.amended tape.covers hs es := by
        simp [picks, hcov]
      rw [if_pos rfl, hnil, List.nil_append]
      exact ih hinv.skipped hes (hheads.trans hstep)
    | false =>
      rw [if_neg Bool.false_ne_true]
      have hpassed := hinv.passed hsorted hcov
      have hstep : tape.amended e = false → tape.heads = picks tape.amended tape.covers hs es := by
        intro hno
        rw [hheads]
        simp [picks, hno]
      cases hedit : e.isEdit with
      | true =>
        have hnil : tape.shownFor e = [] := by simp [shownFor, hidden, hedit]
        rw [if_pos rfl, hnil, List.nil_append]
        exact ih hpassed hes (hstep (by simp [TapeContent.amended, hedit]))
      | false =>
        have hredEq : tape.redactedIds.contains (e.id : JsNumber) = tape.redacted e := rfl
        rw [if_neg Bool.false_ne_true, hredEq]
        cases hred : tape.redacted e with
        | true =>
          have hnil : tape.shownFor e = [] := by simp [shownFor, hidden, hred]
          rw [if_pos rfl, hnil, List.nil_append]
          exact ih hpassed hes (hstep (by simp [TapeContent.amended, hred]))
        | false =>
          have hshown : tape.hidden e = false := by
            simp only [hidden, hedit, hred, hcovered, hcov, Bool.or_self]
          rw [if_neg Bool.false_ne_true, hinv.amended e List.mem_cons_self hcov]
          cases hfirst : tape.first e with
          | none =>
            have hone : tape.shownFor e = [.entry e] := by simp [shownFor, hshown, hfirst]
            rw [hone]
            refine congrArg (Shown.entry e :: ·) (ih hpassed hes (hstep ?_))
            simp [TapeContent.amended, hfirst]
          | some a =>
            have hblock : tape.shownFor e = a.replacement.map (.replacement a e.id) := by
              simp [shownFor, hshown, hfirst]
            have hpick : tape.heads = picks tape.amended tape.covers (hs ++ [e]) es := by
              rw [hheads]
              simp only [picks, TapeContent.amended, hedit, hred, hfirst, hcov, Bool.not_false, Bool.and_self,
                Option.isSome_some, if_true]
            have hfind : (tape.amendments.find? fun a => a.targets e) = some a := hfirst
            rw [Option.isSome_some, if_pos rfl, hfind, hblock]
            exact congrArg _ (ih (hinv.applied hsorted hcov hfirst) hes hpick)

theorem first_isSome (e : TapeEntry) :
    (tape.amendments.flatMap (·.targetIds)).contains (e.id : JsNumber) = (tape.first e).isSome := by
  rw [first, Bool.eq_iff_iff, List.find?_isSome]
  simp [Amendment.targets]

theorem heads_eq_filter (tape : TapeContent) :
    tape.heads = tape.entries.filter fun e => tape.amended e && !tape.heads.any (tape.covers · e) := by
  refine picks_eq_filter (fun a _ => not_covers_of_le le_rfl) ?_
  exact tape.increasing.imp fun hlt => not_covers_of_le (Nat.le_of_lt hlt)

/-- The view, entry by entry. Without any edit that counts, the tape is shown as it is. -/
theorem view_eq (tape : TapeContent) :
    tape.view = if tape.redactedIds.isEmpty && tape.amendments.isEmpty then tape.entries.map .entry
      else tape.entries.flatMap tape.shownFor := by
  have hinv : LoopInv tape [] none (tape.amendments.flatMap (·.targetIds)) tape.entries :=
    ⟨fun _ h => absurd h List.not_mem_nil, fun _ _ => rfl, fun e _ _ => first_isSome e⟩
  rw [← applyLoop_eq hinv tape.increasing rfl]
  rfl

end TapeContent

end Nexal.Tape
