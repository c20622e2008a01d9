/-
SqlWeave/Proofs/Template/Run.lean

The weaving of a statement as a run.  The analysis reads the literal chunks alone; the finished
text holds the values, too.  A run goes through the gaps one after the other and keeps both in
view: the construct that the chunks alone leave open, and what fills each gap.

A reading of the finished text follows such a run if it leaves, after every chunk, something
open that stands in a given relation to the context of the analysis.  It is enough to look at
one gap and the chunk after it.

Main results: every weaving is a run (`woven_of_fillings`), and a reading that follows each step
follows the run (`Woven.follows`).
-/
import SqlWeave.Proofs.Lexer.Agreement
import SqlWeave.Proofs.Series
import SqlWeave.Template.Weave

namespace SqlWeave.Template

variable {σ : Type}

/-! ### Texts so far -/

/-- The finished text up to and with the chunk at `i`. -/
def written (chunks fillings : List Text) (i : Nat) : Text :=
  interleave (chunks.take (i + 1)) (fillings.take i)

theorem interleave_cons_cons (a b : Text) (chunks : List Text) (f : Text) (fillings : List Text) :
    interleave (a :: b :: chunks) (f :: fillings) =
      interleave ((a ++ f ++ b) :: chunks) fillings := by
  cases fillings <;> simp [interleave]

@[simp] theorem written_zero (a : Text) (chunks fillings : List Text) :
    written (a :: chunks) fillings 0 = a := by
  simp [written, interleave]

theorem written_succ (a b : Text) (chunks : List Text) (f : Text) (fillings : List Text)
    (i : Nat) : written (a :: b :: chunks) (f :: fillings) (i + 1) =
      written ((a ++ f ++ b) :: chunks) fillings i := by
  simp only [written, List.take_succ_cons, interleave_cons_cons]

theorem lastChar_append (a b : Text) : lastChar (lastChar [] a) b = lastChar [] (a ++ b) := by
  unfold lastChar
  rw [List.getLast?_append]
  cases b.getLast? <;> rfl

/-- The finished text from the chunk after the filling at `i` on. -/
def unwritten (chunks fillings : List Text) (i : Nat) : Text :=
  interleave (chunks.drop (i + 1)) (fillings.drop (i + 1))

/-- The finished text, cut around the filling at `i`. -/
theorem interleave_eq_append {chunks fillings : List Text} {f : Text} {i : Nat}
    (hi : i < chunks.length) (hf : fillings[i]? = some f) :
    interleave chunks fillings = written chunks fillings i ++ f ++ unwritten chunks fillings i := by
  induction i generalizing chunks fillings with
  | zero =>
    obtain ⟨a, chunks, rfl⟩ := List.exists_cons_of_length_pos hi
    obtain ⟨fillings, rfl⟩ := List.head?_eq_some_iff.1 (List.head?_eq_getElem? ▸ hf)
    rw [written_zero]
    rfl
  | succ i ih =>
    obtain ⟨a, chunks, rfl⟩ := List.exists_cons_of_length_pos (Nat.zero_lt_of_lt hi)
    cases fillings with
    | nil => simp at hf
    | cons g fillings =>
      have hlater := ih (Nat.lt_of_succ_lt_succ hi) hf
      calc interleave (a :: chunks) (g :: fillings)
          = a ++ g ++ interleave chunks fillings := rfl
        _ = a ++ g ++ (written chunks fillings i ++ f ++ unwritten chunks fillings i) := by
          rw [hlater]
        _ = a ++ g ++ written chunks fillings i ++ f ++ unwritten chunks fillings i := by simp

theorem head?_interleave {chunk : Text} (hne : chunk ≠ []) (chunks fillings : List Text) :
    (interleave (chunk :: chunks) fillings).head? = chunk.head? := by
  obtain ⟨c, chunk, rfl⟩ := List.exists_cons_of_ne_nil hne
  cases fillings <;> rfl

/-! ### Runs -/

variable {G : Grammar σ} {s : Surroundings} {options : Options}

/-- The filling of the gaps that are left.  `before` is the last character of the text so far,
and `k` the context that the chunks so far make up. -/
inductive Woven (G : Grammar σ) (s : Surroundings) (options : Options) :
    (before : Text) → (k : Option σ) → (chunks : List Text) → (values : List Value) →
    (fillings : List Text) → (contexts : List (Option σ)) → Prop
  | done {before : Text} {k : Option σ} (h : G.lexer.finish k = .ok ()) :
      Woven G s options before k [] [] [] []
  | gap {before chunk f : Text} {k k' : Option σ} {chunks fs : List Text} {v : Value}
      {vs : List Value} {ks : List (Option σ)}
      (hfill : fill G s options before ⟨k, v, chunk⟩ (!vs.isEmpty) = .ok f)
      (hnext : G.lexer.transition k chunk = .ok k')
      (hlater : Woven G s options (lastChar before (f ++ chunk)) k' chunks vs fs ks) :
      Woven G s options before k (chunk :: chunks) (v :: vs) (f :: fs) (k :: ks)

theorem contextsFrom_cons_eq_ok_iff {L : Lexer σ} {k : Option σ} {chunk : Text}
    {chunks : List Text} {all : List (Option σ)} :
    L.contextsFrom k (chunk :: chunks) = .ok all ↔ ∃ k' later, L.transition k chunk = .ok k' ∧
      L.contextsFrom k' chunks = .ok later ∧ k' :: later = all := by
  rw [Lexer.contextsFrom, Except.bind_eq_ok_iff]
  constructor
  · rintro ⟨k', hk', h⟩
    obtain ⟨later, hlater, h⟩ := Except.bind_eq_ok_iff.1 h
    exact ⟨k', later, hk', hlater, Except.ok.inj h⟩
  · rintro ⟨k', later, hk', hlater, rfl⟩
    exact ⟨k', hk', Except.bind_eq_ok_iff.2 ⟨later, hlater, rfl⟩⟩

theorem contextsFrom_nil_eq_ok_iff {L : Lexer σ} {k : Option σ} {all : List (Option σ)} :
    L.contextsFrom k [] = .ok all ↔ L.finish k = .ok () ∧ all = [] := by
  rw [Lexer.contextsFrom, Except.bind_eq_ok_iff]
  constructor
  · rintro ⟨⟨⟩, hk, h⟩
    exact ⟨hk, (Except.ok.inj h).symm⟩
  · rintro ⟨hk, rfl⟩
    exact ⟨(), hk, rfl⟩

/-- A value between tokens is written if it can be and if it may stand before the next chunk. -/
theorem fill_none_eq_ok_iff {before after f : Text} {v : Value} {flag : Bool} :
    fill G s options before ⟨none, v, after⟩ flag = .ok f ↔
      ∃ t, G.escape s options v = .ok t ∧ G.checkFreeStanding t after flag = .ok () ∧
        setOff before t after = f := by
  rw [fill, render, Except.bind_eq_ok_iff]
  constructor
  · rintro ⟨t, ht, hf⟩
    obtain ⟨u, hu, ht⟩ := Except.bind_eq_ok_iff.1 ht
    obtain ⟨⟨⟩, hcheck, ht⟩ := Except.bind_eq_ok_iff.1 ht
    obtain rfl : u = t := Except.ok.inj ht
    exact ⟨u, hu, hcheck, Except.ok.inj hf⟩
  · rintro ⟨t, ht, hcheck, rfl⟩
    refine ⟨t, Except.bind_eq_ok_iff.2 ⟨t, ht, ?_⟩, rfl⟩
    exact Except.bind_eq_ok_iff.2 ⟨(), hcheck, rfl⟩

theorem fillAll_cons_eq_ok_iff {before : Text} {slot : Slot σ} {later : List (Slot σ)}
    {fs : List Text} :
    fillAll G s options before (slot :: later) = .ok fs ↔
      ∃ f fs', fill G s options before slot (!later.isEmpty) = .ok f ∧
        fillAll G s options (lastChar before (f ++ slot.after)) later = .ok fs' ∧
        f :: fs' = fs := by
  rw [fillAll, Except.bind_eq_ok_iff]
  constructor
  · rintro ⟨f, hf, h⟩
    obtain ⟨fs', hfs', h⟩ := Except.bind_eq_ok_iff.1 h
    exact ⟨f, fs', hf, hfs', Except.ok.inj h⟩
  · rintro ⟨f, fs', hf, hfs', rfl⟩
    exact ⟨f, hf, Except.bind_eq_ok_iff.2 ⟨fs', hfs', rfl⟩⟩

/-- The gaps after a chunk, with the contexts that the chunks give them. -/
def gaps (k : Option σ) (later : List (Option σ)) (values : List Value) (chunks : List Text) :
    List (Slot σ) :=
  ((k :: later).dropLast.zip (values.zip chunks)).map fun (context, value, after) =>
    ⟨context, value, after⟩

theorem isEmpty_gaps {L : Lexer σ} {k : Option σ} {later : List (Option σ)} {values : List Value}
    {chunks : List Text} (hl : L.contextsFrom k chunks = .ok later)
    (harity : chunks.length = values.length) :
    (gaps k later values chunks).isEmpty = values.isEmpty := by
  cases values with
  | nil => simp [gaps]
  | cons v vs =>
    cases chunks with
    | nil => simp at harity
    | cons c chunks =>
      obtain ⟨k', later', -, -, rfl⟩ := contextsFrom_cons_eq_ok_iff.1 hl
      rfl

/-- The gap at `i` of a run, and the run from the chunk after it on. -/
theorem Woven.exists_gap {front : Text} {k k' : Option σ} {chunks fs : List Text}
    {values : List Value} {ks : List (Option σ)} {i : Nat}
    (h : Woven G s options (lastChar [] front) k chunks values fs ks) (hk : ks[i]? = some k') :
    ∃ v f chunk k'', values[i]? = some v ∧ fs[i]? = some f ∧
      chunks.drop i = chunk :: chunks.drop (i + 1) ∧
      fill G s options (lastChar [] (written (front :: chunks) fs i)) ⟨k', v, chunk⟩
        (!(values.drop (i + 1)).isEmpty) = .ok f ∧
      G.lexer.transition k' chunk = .ok k'' ∧
      Woven G s options (lastChar [] (written (front :: chunks) fs i ++ f ++ chunk)) k''
        (chunks.drop (i + 1)) (values.drop (i + 1)) (fs.drop (i + 1)) (ks.drop (i + 1)) := by
  generalize hbefore : lastChar [] front = before at h
  induction i generalizing front before k chunks fs values ks with
  | zero =>
    cases h with
    | done h => simp at hk
    | gap hfill hnext hlater =>
      obtain rfl : k = k' := by simpa using hk
      subst hbefore
      refine ⟨_, _, _, _, rfl, rfl, rfl, by simpa using hfill, hnext, ?_⟩
      rw [lastChar_append, ← List.append_assoc] at hlater
      simpa using hlater
  | succ i ih =>
    cases h with
    | done h => simp at hk
    | @gap _ chunk f _ _ _ _ _ _ _ hfill hnext hlater =>
      subst hbefore
      rw [lastChar_append, ← List.append_assoc] at hlater
      obtain ⟨v', f', chunk', k'', hv', hf', hchunk', hfill', hnext', hlater'⟩ :=
        ih hk _ (rfl : lastChar [] (front ++ f ++ chunk) = _) hlater
      rw [written_succ]
      exact ⟨v', f', chunk', k'', hv', hf', hchunk', hfill', hnext', hlater'⟩

theorem woven_of_fillAll {before : Text} {k : Option σ} {later : List (Option σ)}
    {chunks fs : List Text} {values : List Value} (harity : chunks.length = values.length)
    (hl : G.lexer.contextsFrom k chunks = .ok later)
    (hf : fillAll G s options before (gaps k later values chunks) = .ok fs) :
    Woven G s options before k chunks values fs (k :: later).dropLast := by
  induction chunks generalizing before k later fs values with
  | nil =>
    obtain ⟨hfinish, rfl⟩ := contextsFrom_nil_eq_ok_iff.1 hl
    obtain rfl := List.length_eq_zero_iff.1 harity.symm
    obtain rfl : fs = [] := by simpa [gaps, fillAll] using hf.symm
    exact .done hfinish
  | cons chunk chunks ih =>
    obtain ⟨k', later, hk', hlater, rfl⟩ := contextsFrom_cons_eq_ok_iff.1 hl
    cases values with
    | nil => simp at harity
    | cons v vs =>
      have harity' : chunks.length = vs.length := by simpa using harity
      have hgaps : gaps k (k' :: later) (v :: vs) (chunk :: chunks) =
          ⟨k, v, chunk⟩ :: gaps k' later vs chunks := rfl
      rw [hgaps, fillAll_cons_eq_ok_iff, isEmpty_gaps hlater harity'] at hf
      obtain ⟨f, fs', hf, hfs', rfl⟩ := hf
      exact .gap hf hk' (ih harity' hlater hfs')

/-- Every weaving is a run over the gaps after its first chunk. -/
theorem woven_of_fillings {chunks fs : List Text} {values : List Value} {ks : List (Option σ)}
    (hk : G.lexer.contexts chunks = .ok ks) (hf : fillings G s options chunks values = .ok fs) :
    ∃ chunk later k, chunks = chunk :: later ∧ G.lexer.transition none chunk = .ok k ∧
      Woven G s options (lastChar [] chunk) k later values fs ks := by
  rw [fillings] at hf
  split at hf
  · rename_i harity
    obtain ⟨chunk, later, rfl⟩ := List.exists_cons_of_length_eq_add_one harity
    obtain ⟨all, hall, hdrop⟩ := Except.bind_eq_ok_iff.1 hk
    obtain ⟨k, ks', hnext, hlater, rfl⟩ := contextsFrom_cons_eq_ok_iff.1 hall
    obtain rfl : (k :: ks').dropLast = ks := Except.ok.inj hdrop
    refine ⟨chunk, later, k, rfl, hnext, ?_⟩
    have hanalysis : analyze G (chunk :: later) = .ok ⟨chunk :: later, (k :: ks').dropLast⟩ := by
      rw [analyze, hk]
      rfl
    obtain ⟨analysis, ha, hf⟩ := Except.bind_eq_ok_iff.1 hf
    obtain rfl := Except.ok.inj (hanalysis.symm.trans ha)
    exact woven_of_fillAll (by simpa using harity) hlater hf
  · cases hf

theorem exists_fillAll_eq_ok {slots : List (Slot σ)}
    (h : ∀ slot ∈ slots, ∀ before flag, ∃ f, fill G s options before slot flag = .ok f)
    (before : Text) : ∃ fs, fillAll G s options before slots = .ok fs := by
  induction slots generalizing before with
  | nil => exact ⟨[], rfl⟩
  | cons slot later ih =>
    obtain ⟨f, hf⟩ := h slot (by simp) before (!later.isEmpty)
    obtain ⟨fs, hfs⟩ := ih (fun slot hslot => h slot (by simp [hslot]))
      (lastChar before (f ++ slot.after))
    exact ⟨f :: fs, fillAll_cons_eq_ok_iff.2 ⟨f, fs, hf, hfs, rfl⟩⟩

/-- A statement is woven if its chunks make up a whole one, there is a value for each gap, and
each value can be written in its gap. -/
theorem exists_fillings_eq_ok {chunks : List Text} {values : List Value} {ks : List (Option σ)}
    (hk : G.lexer.contexts chunks = .ok ks) (harity : chunks.length = values.length + 1)
    (hfill : ∀ (i : Nat) k v, ks[i]? = some k → values[i]? = some v →
      ∀ before after flag, ∃ f, fill G s options before ⟨k, v, after⟩ flag = .ok f) :
    ∃ fs, fillings G s options chunks values = .ok fs := by
  have hslots : ∀ slot ∈ slots ⟨chunks, ks⟩ values, ∀ before flag,
      ∃ f, fill G s options before slot flag = .ok f := by
    intro slot hslot before flag
    obtain ⟨⟨k, v, after⟩, hmem, rfl⟩ := List.mem_map.1 hslot
    obtain ⟨i, hi⟩ := List.mem_iff_getElem?.1 hmem
    obtain ⟨hk, hv⟩ := List.getElem?_zip_eq_some.1 hi
    exact hfill i k v hk (List.getElem?_zip_eq_some.1 hv).1 before after flag
  obtain ⟨fs, hfs⟩ := exists_fillAll_eq_ok hslots (lastChar [] (chunks.headD []))
  refine ⟨fs, ?_⟩
  rw [fillings, if_pos harity, analyze, hk]
  exact hfs

/-! ### Readings that follow a run -/

/-- Whether a context can be that of a gap that is filled, or of the end of a statement. -/
def Usable (G : Grammar σ) (s : Surroundings) (options : Options) (k : Option σ) : Prop :=
  G.lexer.finish k = .ok () ∨
    ∃ before v after flag f, fill G s options before ⟨k, v, after⟩ flag = .ok f

theorem Woven.usable {before : Text} {k : Option σ} {chunks fs : List Text} {values : List Value}
    {ks : List (Option σ)} (h : Woven G s options before k chunks values fs ks) :
    Usable G s options k := by
  cases h with
  | done h => exact .inl h
  | gap hfill hnext hlater => exact .inr ⟨_, _, _, _, _, hfill⟩

/-- A reading follows a run if, gap by gap, it keeps the relation `R` between the context and
what it leaves open.  The condition `C` is what a step asks of its gap: the text before it, the
context, the value, the text of the value, and the chunk after it. -/
theorem Woven.follows {R : Option σ → Option σ → Prop}
    {C : Text → Option σ → Value → Text → Text → Prop}
    (hfinish : ∀ {k q}, R k q → G.lexer.finish k = .ok () → G.lexer.finish q = .ok ())
    (hstep : ∀ {front k q v f chunk flag k'}, R k q → G.lexer.transition none front = .ok q →
      fill G s options (lastChar [] front) ⟨k, v, chunk⟩ flag = .ok f →
      G.lexer.transition k chunk = .ok k' → Usable G s options k' → C front k v f chunk →
      ∃ q', G.lexer.transition none (front ++ f ++ chunk) = .ok q' ∧ R k' q')
    {front : Text} {k q : Option σ} {chunks fs : List Text} {values : List Value}
    {ks : List (Option σ)} (h : Woven G s options (lastChar [] front) k chunks values fs ks)
    (hq : G.lexer.transition none front = .ok q) (hR : R k q)
    (hC : ∀ i k v f chunk, ks[i]? = some k → values[i]? = some v → fs[i]? = some f →
      chunks[i]? = some chunk → C (written (front :: chunks) fs i) k v f chunk) :
    (∃ q', G.lexer.transition none (interleave (front :: chunks) fs) = .ok q' ∧
      G.lexer.finish q' = .ok ()) ∧
      ∀ i k, ks[i]? = some k →
        ∃ q', G.lexer.transition none (written (front :: chunks) fs i) = .ok q' ∧ R k q' := by
  -- The induction is on the run.  At each gap the text so far grows by a filling and a chunk.
  generalize hbefore : lastChar [] front = before at h
  induction h generalizing front q with
  | done hk =>
    refine ⟨⟨q, ?_, hfinish hR hk⟩, by simp⟩
    simpa [interleave] using hq
  | @gap before chunk f k k' chunks fs v vs ks hfill hnext hlater ih =>
    subst hbefore
    have hhere : C front k v f chunk := by
      simpa using hC 0 k v f chunk rfl rfl rfl rfl
    obtain ⟨q', hq', hR'⟩ := hstep hR hq hfill hnext hlater.usable hhere
    have hbefore' : lastChar [] (front ++ f ++ chunk) =
        lastChar (lastChar [] front) (f ++ chunk) := by
      rw [lastChar_append, List.append_assoc]
    obtain ⟨hend, hall⟩ := ih hq' hR' (fun i k v g c hk hv hg hc => by
      rw [← written_succ]
      exact hC (i + 1) k v g c hk hv hg hc) hbefore'
    rw [interleave_cons_cons]
    refine ⟨hend, ?_⟩
    intro i k'' hk''
    cases i with
    | zero =>
      obtain rfl : k = k'' := by simpa using hk''
      exact ⟨q, by simpa using hq, hR⟩
    | succ i =>
      rw [written_succ]
      exact hall i k'' hk''

end SqlWeave.Template
