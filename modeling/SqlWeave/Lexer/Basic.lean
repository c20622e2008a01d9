/-
SqlWeave/Lexer/Basic.lean

A lexer says in which construct a text leaves off.  It knows one step, `advance`, from
the construct that is open and the text still to be read; `transition` takes steps until
the text is used up.  No open construct is the top level.

A step reads something, or it closes the open construct without reading; that is the
law `advance_reads`, and why `transition` ends.

Chunks of one statement are fed in order to a `Scan`, which stops for good at its first
failure.
-/
import SqlWeave.Failure

namespace SqlWeave

/-- A lexer whose open constructs are the values of `σ`. -/
structure Lexer (σ : Type) where
  /-- One step: the construct open after it, and the text left. -/
  advance : Option σ → Text → Except Failure (Option σ × Text)
  /-- The text that opened the construct. -/
  opener : σ → Text
  /-- What messages call the construct. -/
  description : σ → Text
  /-- Whether a statement may end here. -/
  endsCleanly : σ → Bool
  /-- Whether a value spliced here brings quotes of its own. -/
  selfDelimiting : σ → Bool
  advance_reads : ∀ {s text s' rest}, text ≠ [] → advance s text = .ok (s', rest) →
    rest.length < text.length ∨ rest = text ∧ s.isSome ∧ s' = none

namespace Lexer

variable {σ : Type} (L : Lexer σ)

/-- The construct that is open after `text`, when `s` was open before it. -/
def transition (s : Option σ) (text : Text) : Except Failure (Option σ) :=
  if _hne : text = [] then .ok s
  else
    match _h : L.advance s text with
    | .error e => .error e
    | .ok (s', rest) => transition s' rest
termination_by 2 * text.length + (if s.isSome then 1 else 0)
decreasing_by
  rcases L.advance_reads _hne _h with hlt | ⟨rfl, hs, rfl⟩
  · split <;> split <;> omega
  · simp [hs]

@[simp] theorem transition_nil (s : Option σ) : L.transition s [] = .ok s := by
  rw [transition]
  simp

theorem transition_of_ne_nil {s : Option σ} {text : Text} (h : text ≠ []) :
    L.transition s text =
      match L.advance s text with
      | .error e => .error e
      | .ok (s', rest) => L.transition s' rest := by
  rw [transition, dif_neg h]
  split <;> simp_all

/-- Whether a statement may end with `s` open. -/
def finish : Option σ → Except Failure Unit
  | none => .ok ()
  | some s =>
    if L.endsCleanly s then .ok () else .error (.unclosed (L.description s) (L.opener s))

/-- The constructs open after each of the chunks, which must make up a whole statement. -/
def contextsFrom (s : Option σ) : List Text → Except Failure (List (Option σ))
  | [] => do
    L.finish s
    return []
  | chunk :: chunks => do
    let s' ← L.transition s chunk
    let later ← contextsFrom s' chunks
    return s' :: later

/-- The context of each gap between the chunks of a statement.  Nothing is spliced after
the last chunk. -/
def contexts (chunks : List Text) : Except Failure (List (Option σ)) := do
  let all ← L.contextsFrom none chunks
  return all.dropLast

end Lexer

/-- A statement being read chunk by chunk. -/
structure Scan (σ : Type) where
  /-- The construct that is open. -/
  state : Option σ := none
  /-- The failure that stopped the scan. -/
  failure : Option Failure := none

namespace Scan

variable {σ : Type}

/-- Reads one more chunk, or, given none, ends the statement.  The first failure is given
again at every later call. -/
def feed (L : Lexer σ) (scan : Scan σ) (chunk : Option Text) :
    Except Failure (Option σ) × Scan σ :=
  match scan.failure with
  | some e => (.error e, scan)
  | none =>
    let outcome := match chunk with
      | some text => L.transition scan.state text
      | none => (L.finish scan.state).map fun _ => scan.state
    match outcome with
    | .ok s => (.ok s, { scan with state := s })
    | .error e => (.error e, { scan with failure := some e })

end Scan

end SqlWeave
