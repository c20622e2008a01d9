/-
SqlWeave/Proofs/Lexer/Feeding.lean

Statements fed to a scan chunk by chunk.  A scan that has not failed stands where the lexer
leaves off after the chunks so far.

Main results: when a chunk is taken (`feed_eq_ok_iff`), what a scan keeps over all chunks
(`feeds_induction`), and the scan behind each context that the analysis of a statement reports
(`feeds_of_contexts`).
-/
import SqlWeave.Proofs.Template.Run

namespace SqlWeave.Scan

variable {σ : Type} {L : Lexer σ} {scan : Scan σ} {chunk : Option Text} {q : Option σ}

/-- Reads chunks in order; no chunk in the place of one ends the statement. -/
def feeds (L : Lexer σ) (scan : Scan σ) (chunks : List (Option Text)) : Scan σ :=
  chunks.foldl (fun scan chunk => (scan.feed L chunk).2) scan

@[simp] theorem feeds_nil : feeds L scan [] = scan := rfl

theorem feeds_cons (chunk : Option Text) (chunks : List (Option Text)) :
    feeds L scan (chunk :: chunks) = feeds L (scan.feed L chunk).2 chunks := rfl

theorem feeds_concat (chunks : List (Option Text)) (chunk : Option Text) :
    feeds L scan (chunks ++ [chunk]) = ((feeds L scan chunks).feed L chunk).2 := by
  rw [feeds, List.foldl_append]
  rfl

/-! ### One chunk -/

/-- What a chunk, or the end of the statement, comes to where `s` is open. -/
def outcome (L : Lexer σ) (s : Option σ) : Option Text → Except Failure (Option σ)
  | some text => L.transition s text
  | none => (L.finish s).map fun _ => s

theorem feed_of_failure {e : Failure} (h : scan.failure = some e) :
    scan.feed L chunk = (.error e, scan) := by
  simp only [feed, h]

theorem feed_of_ok (hok : scan.failure = none) (h : outcome L scan.state chunk = .ok q) :
    scan.feed L chunk = (.ok q, ⟨q, none⟩) := by
  obtain ⟨s, failure⟩ := scan
  obtain rfl : failure = none := hok
  cases chunk <;> simp only [feed, outcome] at h ⊢ <;> rw [h]

theorem feed_of_error {e : Failure} (hok : scan.failure = none)
    (h : outcome L scan.state chunk = .error e) :
    scan.feed L chunk = (.error e, { scan with failure := some e }) := by
  obtain ⟨s, failure⟩ := scan
  obtain rfl : failure = none := hok
  cases chunk <;> simp only [feed, outcome] at h ⊢ <;> rw [h]

theorem feed_eq_ok_iff :
    (scan.feed L chunk).1 = .ok q ↔
      scan.failure = none ∧ outcome L scan.state chunk = .ok q := by
  cases hok : scan.failure with
  | some e => simp [feed_of_failure hok]
  | none =>
    cases h : outcome L scan.state chunk with
    | ok s => simp [feed_of_ok hok h]
    | error e => simp [feed_of_error hok h]

/-- A scan that has not failed has taken the last chunk. -/
theorem exists_of_failure_feed (h : (scan.feed L chunk).2.failure = none) :
    ∃ q, scan.failure = none ∧ outcome L scan.state chunk = .ok q := by
  cases hok : scan.failure with
  | some e =>
    rw [feed_of_failure hok, hok] at h
    contradiction
  | none =>
    cases ho : outcome L scan.state chunk with
    | ok q => exact ⟨q, rfl, rfl⟩
    | error e =>
      rw [feed_of_error hok ho] at h
      contradiction

/-! ### Several chunks -/

/-- What the lexer keeps from one open construct to the next, a scan keeps over all chunks. -/
theorem feeds_induction {P : Option σ → Prop}
    (hnext : ∀ {s q text}, P s → L.transition s text = .ok q → P q) (chunks : List (Option Text))
    (h : P scan.state) : P (feeds L scan chunks).state := by
  induction chunks generalizing scan with
  | nil => exact h
  | cons chunk chunks ih =>
    rw [feeds_cons]
    apply ih
    cases hok : scan.failure with
    | some e => rwa [feed_of_failure hok]
    | none =>
      cases ho : outcome L scan.state chunk with
      | error e => rwa [feed_of_error hok ho]
      | ok q =>
        rw [feed_of_ok hok ho]
        cases chunk with
        | some text => exact hnext h ho
        | none =>
          obtain ⟨-, -, rfl⟩ := Except.map_eq_ok_iff.1 ho
          exact h

theorem feeds_of_contextsFrom {s k : Option σ} {chunks : List Text} {all : List (Option σ)} {i : Nat}
    (h : L.contextsFrom s chunks = .ok all) (hk : all[i]? = some k) :
    feeds L ⟨s, none⟩ ((chunks.take (i + 1)).map some) = ⟨k, none⟩ := by
  induction chunks generalizing s all i with
  | nil =>
    obtain ⟨-, rfl⟩ := Template.contextsFrom_nil_eq_ok_iff.1 h
    simp at hk
  | cons chunk chunks ih =>
    obtain ⟨s', later, hs', hlater, rfl⟩ := Template.contextsFrom_cons_eq_ok_iff.1 h
    have hfeed : (⟨s, none⟩ : Scan σ).feed L (some chunk) = (.ok s', ⟨s', none⟩) :=
      feed_of_ok rfl hs'
    rw [List.take_succ_cons, List.map_cons, feeds_cons, hfeed]
    cases i with
    | zero =>
      obtain rfl : s' = k := by simpa using hk
      rfl
    | succ i => exact ih hlater hk

/-- The context of a gap is what a fresh scan has open after the chunks before the gap. -/
theorem feeds_of_contexts {chunks : List Text} {ks : List (Option σ)} {k : Option σ} {i : Nat}
    (h : L.contexts chunks = .ok ks) (hk : ks[i]? = some k) :
    feeds L {} ((chunks.take (i + 1)).map some) = ⟨k, none⟩ := by
  obtain ⟨all, hall, hks⟩ := Except.bind_eq_ok_iff.1 h
  obtain rfl : all.dropLast = ks := Except.ok.inj hks
  refine feeds_of_contextsFrom hall ?_
  rw [List.getElem?_dropLast] at hk
  split at hk
  · exact hk
  · contradiction

end SqlWeave.Scan
