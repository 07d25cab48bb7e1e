import Nexal.Spec.Hello

/-! The text a hello signs: its fields, joined by newlines. No field is asked to be free of them. -/

namespace Nexal.Gateway

/-! Decimal texts -/

def decimal (ts : Int64) : List Char := (toString ts.toInt).toList

theorem toList_toString_int (n : ℤ) :
    (toString n).toList = if 0 ≤ n then Nat.toDigits 10 n.toNat else '-' :: Nat.toDigits 10 (-n).toNat := by
  rw [Int.toString_eq_repr, Int.repr_eq_if]
  split_ifs
  · exact Nat.toList_repr
  · rw [String.toList_append, Nat.toList_repr]
    rfl

theorem isDigit_of_mem {c : Char} {n : ℕ} (h : c ∈ Nat.toDigits 10 n) : c.isDigit = true :=
  Nat.isDigit_of_mem_toDigits (by decide) (by decide) h

theorem newline_notMem_decimal (ts : Int64) : '\n' ∉ decimal ts := by
  rw [decimal, toList_toString_int]
  split_ifs
  · intro hmem
    have hdigit := isDigit_of_mem hmem
    cases hdigit
  · intro hmem
    rcases List.mem_cons.mp hmem with hminus | hmem
    · cases hminus
    · have hdigit := isDigit_of_mem hmem
      cases hdigit

theorem toDigits_inj {m n : ℕ} (h : Nat.toDigits 10 m = Nat.toDigits 10 n) : m = n := by
  rw [← Nat.ofDigitChars_ten_toDigits (n := m), h, Nat.ofDigitChars_ten_toDigits]

/-- A minus sign is no digit. -/
theorem toDigits_ne_minus {m : ℕ} {l : List Char} : Nat.toDigits 10 m ≠ '-' :: l := by
  intro h
  have hdigit := isDigit_of_mem (n := m) (c := '-') (by rw [h]; exact List.mem_cons_self)
  cases hdigit

theorem decimal_inj {t u : Int64} (h : decimal t = decimal u) : t = u := by
  rw [decimal, decimal, toList_toString_int, toList_toString_int] at h
  refine Int64.toInt_inj.mp ?_
  split_ifs at h
  · have heq := toDigits_inj h
    omega
  · exact absurd h toDigits_ne_minus
  · exact absurd h.symm toDigits_ne_minus
  · have heq := toDigits_inj (List.cons.inj h).2
    omega

/-! The lines of the text -/

theorem toList_canonical (p : HelloParams) :
    (canonical p).toList = p.accessKey.toList ++ '\n' :: (decimal p.ts ++ '\n' ::
      (p.nonce.toList ++ '\n' :: p.clientName.toList)) := by
  have hnewline : "\n".toList = ['\n'] := rfl
  simp only [canonical, String.toList_append, hnewline, decimal, List.append_assoc, List.cons_append, List.nil_append]

def LaterLine (line text : List Char) : Prop :=
  '\n' ∉ line ∧ ∃ before after, text = before ++ '\n' :: (line ++ after) ∧
    (after = [] ∨ ∃ rest, after = '\n' :: rest)

structure OneReading (p : HelloParams) : Prop where
  nonce : '\n' ∉ p.nonce.toList
  clientName : '\n' ∉ p.clientName.toList
  accessKey : ∀ line, LaterLine line p.accessKey.toList → ∀ ts : Int64, line ≠ decimal ts

def SameFields (p q : HelloParams) : Prop :=
  q.accessKey = p.accessKey ∧ q.ts = p.ts ∧ q.nonce = p.nonce ∧ q.clientName = p.clientName

theorem sameFields_of_canonical_eq {p q : HelloParams} (h : OneReading p) (heq : canonical q = canonical p) :
    SameFields p q := by
  have htext := congrArg String.toList heq
  rw [toList_canonical, toList_canonical] at htext
  rcases Lists.cut_cases htext with ⟨hkey, hrest⟩ | ⟨u, -, hrest⟩ | ⟨u, hkey, hrest⟩
  · obtain ⟨hts, hrest⟩ := Lists.cut_unique (newline_notMem_decimal _) (newline_notMem_decimal _) hrest
    have hfields : q.nonce.toList = p.nonce.toList ∧ q.clientName.toList = p.clientName.toList := by
      rcases Lists.cut_cases hrest with hsame | ⟨u, -, hclient⟩ | ⟨u, hnonce, -⟩
      · exact hsame
      · refine absurd ?_ h.clientName
        rw [hclient]
        exact List.mem_append_right u List.mem_cons_self
      · refine absurd ?_ h.nonce
        rw [hnonce]
        exact List.mem_append_right _ List.mem_cons_self
    exact ⟨String.toList_inj.mp hkey, decimal_inj hts, String.toList_inj.mp hfields.1, String.toList_inj.mp hfields.2⟩
  · -- a longer key would leave too few lines for the other fields
    have hcount := congrArg (List.count '\n') hrest
    have hts := List.count_eq_zero_of_not_mem (newline_notMem_decimal p.ts)
    have hnonce := List.count_eq_zero_of_not_mem h.nonce
    have hclient := List.count_eq_zero_of_not_mem h.clientName
    simp only [List.count_append, List.count_cons_self, hts, hnonce, hclient] at hcount
    omega
  · -- a shorter key makes one of the key's lines a timestamp
    have hline : LaterLine (decimal q.ts) p.accessKey.toList := by
      refine ⟨newline_notMem_decimal _, q.accessKey.toList, ?_⟩
      rcases Lists.cut_cases hrest with ⟨hts, -⟩ | ⟨v, hts, -⟩ | ⟨v, hu, -⟩
      · exact ⟨[], by rw [hkey, hts, List.append_nil], Or.inl rfl⟩
      · refine absurd ?_ (newline_notMem_decimal q.ts)
        rw [hts]
        exact List.mem_append_right u List.mem_cons_self
      · exact ⟨'\n' :: v, by rw [hkey, hu], Or.inr ⟨v, rfl⟩⟩
    exact absurd rfl (h.accessKey _ hline q.ts)

/-! Other fields with the same text -/

/-- Two texts that differ in length are two texts. -/
theorem ne_of_toList_append {a b : String} {l : List Char} {x : Char} (h : a.toList = b.toList ++ x :: l) : b ≠ a := by
  rintro rfl
  have hlength := congrArg List.length h
  rw [List.length_append, List.length_cons] at hlength
  omega

theorem oneReading_of_canonical {p : HelloParams} (h : ∀ q, canonical q = canonical p → SameFields p q) :
    OneReading p := by
  have hcanonical : ∀ {q : HelloParams}, (canonical q).toList = (canonical p).toList → SameFields p q :=
    fun heq => h _ (String.toList_inj.mp heq)
  refine ⟨fun hmem => ?_, fun hmem => ?_, fun line hline ts hts => ?_⟩
  · -- a newline of the nonce may as well end it
    obtain ⟨a, b, hnonce⟩ := List.mem_iff_append.mp hmem
    have hsame := hcanonical (q := { p with
      nonce := String.ofList a, clientName := String.ofList (b ++ '\n' :: p.clientName.toList) }) (by
        rw [toList_canonical, toList_canonical, hnonce]
        simp only [String.toList_ofList, List.append_assoc, List.cons_append])
    have hlonger : p.nonce.toList = (String.ofList a).toList ++ '\n' :: b := by rw [String.toList_ofList, hnonce]
    exact ne_of_toList_append hlonger hsame.2.2.1
  · -- a newline of the client's name may as well begin it
    obtain ⟨a, b, hclient⟩ := List.mem_iff_append.mp hmem
    have hsame := hcanonical (q := { p with
      nonce := String.ofList (p.nonce.toList ++ '\n' :: a), clientName := String.ofList b }) (by
        rw [toList_canonical, toList_canonical, hclient]
        simp only [String.toList_ofList, List.append_assoc, List.cons_append])
    exact ne_of_toList_append String.toList_ofList hsame.2.2.1.symm
  · -- the key ends where the line begins
    obtain ⟨-, before, after, hkey, hafter⟩ := hline
    subst hts
    have hother : ∀ rest nonce client : List Char,
        after ++ '\n' :: (decimal p.ts ++ '\n' :: (p.nonce.toList ++ '\n' :: p.clientName.toList)) = '\n' :: rest →
        rest = nonce ++ '\n' :: client → False := by
      intro rest nonce client hrest hcut
      have hsame := hcanonical (q := { p with
        accessKey := String.ofList before, ts := ts, nonce := String.ofList nonce, clientName := String.ofList client }) (by
          rw [toList_canonical, toList_canonical, hkey]
          simp only [String.toList_ofList, List.append_assoc, List.cons_append]
          rw [hrest, hcut])
      have hlonger : p.accessKey.toList = (String.ofList before).toList ++ '\n' :: (decimal ts ++ after) := by
        rw [String.toList_ofList, hkey]
      exact ne_of_toList_append hlonger hsame.1
    rcases hafter with rfl | ⟨rest, rfl⟩
    · exact hother _ _ _ rfl rfl
    · exact hother _ (rest ++ '\n' :: decimal p.ts) (p.nonce.toList ++ '\n' :: p.clientName.toList) rfl (by simp)

/-- One signature stands for one tuple of fields exactly when neither the nonce nor the client's
name has a newline and no line of the access key but the first is a number. -/
theorem canonical_determines_fields_iff (p : HelloParams) :
    (∀ q, canonical q = canonical p → SameFields p q) ↔ OneReading p :=
  ⟨oneReading_of_canonical, fun h _ heq => sameFields_of_canonical_eq h heq⟩

/-- The same signature under a fresh nonce. -/
theorem canonical_collision :
    canonical ⟨"key", "x\ny", 1000, "n", "ab"⟩ = canonical ⟨"key", "y", 1000, "n\nx", "ab"⟩ ∧
      ¬ SameFields ⟨"key", "x\ny", 1000, "n", "ab"⟩ ⟨"key", "y", 1000, "n\nx", "ab"⟩ := by
  refine ⟨by decide, fun hsame => ?_⟩
  have hnonce := hsame.2.2.1
  revert hnonce
  decide

end Nexal.Gateway
