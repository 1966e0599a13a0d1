import SaveContainer.Proofs.GraphPrinting

/-!
The calls that printing a graph may make, as a grammar, and the handles that are open after them.
Reading a grammar form from the left yields calls one by one, so a word may be cut anywhere, also
where the whole of it would be infinite. Main statements: a cut is a beginning of every whole word,
and calls that leave nothing open have released every handle as often as they have opened it.
-/

namespace SaveContainer

/-- An open directory, or an open list of one. -/
inductive Handle where
  | directory (ino : Ino)
  | list (kind : EntryKind) (ino : Ino)
  deriving DecidableEq

namespace Handle

def acquire : Handle → Call
  | directory ino => .opened ino
  | list kind ino => .listed kind ino

def release : Handle → Call
  | directory ino => .released ino
  | list kind ino => .releasedList kind ino

/-- What a call does to the open handles, of which the innermost comes first. Only the innermost
one is ever used: a directory can be listed when it has no open list, and another one is opened in
it while its sub-directories are listed. -/
inductive Step : List Handle → Call → List Handle → Prop
  | root (ino : Ino) : Step [] (.opened ino) [directory ino]
  | enter (n ino : Ino) (held : List Handle) :
      Step (list .directory n :: held) (.opened ino) (directory ino :: list .directory n :: held)
  | list (kind : EntryKind) (n : Ino) (held : List Handle) :
      Step (directory n :: held) (.listed kind n) (list kind n :: directory n :: held)
  | get (kind : EntryKind) (n : Ino) (i : Nat) (held : List Handle) :
      Step (list kind n :: held) (.got kind n i) (list kind n :: held)
  | release (h : Handle) (held : List Handle) : Step (h :: held) h.release held
  | refuseList (kind : EntryKind) (n : Ino) (held : List Handle) :
      Step (directory n :: held) (.failedList kind n) (directory n :: held)
  | refuseEnter (name : ShortName) (n : Ino) (held : List Handle) :
      Step (list .directory n :: held) (.failedOpen name) (list .directory n :: held)
  | flush : Step [] .flushed []

inductive Steps : List Handle → List Call → List Handle → Prop
  | nil (held : List Handle) : Steps held [] held
  | cons {held held' held'' : List Handle} {c : Call} {calls : List Call} :
      Step held c held' → Steps held' calls held'' → Steps held (c :: calls) held''

variable {held held' held'' : List Handle} {calls calls' : List Call}

theorem Step.one {c : Call} (h : Step held c held') : Steps held [c] held' :=
  .cons h (.nil held')

theorem Steps.append (h : Steps held calls held') (h' : Steps held' calls' held'') :
    Steps held (calls ++ calls') held'' := by
  induction h with
  | nil _ => exact h'
  | cons step _ ih => exact .cons step (ih h')

theorem Steps.split (h : Steps held (calls ++ calls') held') :
    ∃ held'', Steps held calls held'' ∧ Steps held'' calls' held' := by
  induction calls generalizing held with
  | nil => exact ⟨held, .nil held, h⟩
  | cons c calls ih =>
      cases h with
      | cons step rest =>
          obtain ⟨held'', first, second⟩ := ih rest
          exact ⟨held'', .cons step first, second⟩

/-- What an open handle stands in: a list in its directory, a directory in a list of
sub-directories. -/
inductive In : Handle → Handle → Prop
  | list (kind : EntryKind) (n : Ino) : In (list kind n) (directory n)
  | directory (ino n : Ino) : In (directory ino) (list .directory n)

theorem Step.isChain {c : Call} (step : Step held c held') (chain : held.IsChain In) :
    held'.IsChain In := by
  cases step with
  | root ino => exact .singleton _
  | enter n ino held => exact .cons_cons (.directory ino n) chain
  | list kind n held => exact .cons_cons (.list kind n) chain
  | get kind n i held => exact chain
  | release h held => exact chain.tail
  | refuseList kind n held => exact chain
  | refuseEnter name n held => exact chain
  | flush => exact chain

/-- So a directory never has two open lists. -/
theorem Steps.isChain (steps : Steps held calls held') (chain : held.IsChain In) :
    held'.IsChain In := by
  induction steps with
  | nil _ => exact chain
  | cons step _ ih => exact ih (step.isChain chain)

theorem steps_release (opened base : List Handle) :
    Steps (opened ++ base) (opened.map release) base := by
  induction opened with
  | nil => exact .nil base
  | cons h opened ih => exact .cons (.release h (opened ++ base)) ih

theorem Step.count {c : Call} (step : Step held c held') (h : Handle) :
    [c].count h.acquire + held.count h = [c].count h.release + held'.count h := by
  cases step with
  | release k =>
      cases eq_or_ne k h with
      | inl eq =>
          subst eq
          cases k <;> simp [acquire, Handle.release, Nat.add_comm]
      | inr ne =>
          have : k.release ≠ h.release := by
            cases k <;> cases h <;> simp_all [Handle.release]
          have : k.release ≠ h.acquire := by
            cases k <;> cases h <;> simp [Handle.release, acquire]
          simp [*]
  | _ => cases h <;> simp [acquire, Handle.release, List.count_cons] <;> omega

/-- What has been opened was open before or is released or is still open. -/
theorem Steps.count (steps : Steps held calls held') (h : Handle) :
    calls.count h.acquire + held.count h = calls.count h.release + held'.count h := by
  induction steps with
  | nil _ => rfl
  | cons step _ ih =>
      have first := step.count h
      simp only [List.count_cons, List.count_nil] at first ⊢
      omega

end Handle

namespace Graph

/-- A call, or all the calls of printing what a directory holds. -/
inductive Symbol where
  | call (c : Call)
  | inside (ino : Ino)

namespace Symbol

/-- One round of the loop over the sub-directories of `ino`. -/
def directoryRound (ino : Ino) (round : Ino × Nat) : List Symbol :=
  [call (.got .directory ino round.2), call (.opened round.1), inside round.1,
    call (.released round.1)]

def fileRound (ino : Ino) (round : Ino × Nat) : Symbol :=
  call (.got .file ino round.2)

def listing (kind : EntryKind) (ino : Ino) (rounds : List Symbol) : List Symbol :=
  call (.listed kind ino) :: rounds ++ [call (.releasedList kind ino)]

end Symbol

open Graph.Symbol

/-- The calls of printing what a directory holds: first the sub-directories, each of them opened,
printed and released before the next, and then the files. -/
def production (g : Graph) (ino : Ino) : List Symbol :=
  listing .directory ino ((g.children ino).zipIdx.flatMap (directoryRound ino)) ++
    listing .file ino ((g.node ino).files.zipIdx.map (fileRound ino))

/-- The calls of printing a whole container. -/
def printing : List Symbol :=
  [call (.opened rootIno), inside rootIno, call (.released rootIno), call .flushed]

/-- Reading a form from the left yields these calls and leaves the rest of it. -/
inductive Yields (g : Graph) : List Symbol → List Call → List Symbol → Prop
  | stop (form : List Symbol) : Yields g form [] form
  | call {c : Call} {form rest : List Symbol} {word : List Call} :
      Yields g form word rest → Yields g (.call c :: form) (c :: word) rest
  | inside {ino : Ino} {form rest : List Symbol} {word : List Call} :
      Yields g (g.production ino ++ form) word rest → Yields g (.inside ino :: form) word rest

variable {g : Graph} {form form' rest rest' : List Symbol} {word word' : List Call}

theorem Yields.append_right (h : g.Yields form word rest) (more : List Symbol) :
    g.Yields (form ++ more) word (rest ++ more) := by
  induction h with
  | stop form => exact .stop _
  | call _ ih => exact .call ih
  | inside _ ih => exact .inside (by rwa [List.append_assoc] at ih)

theorem Yields.trans (h : g.Yields form word rest) (h' : g.Yields rest word' rest') :
    g.Yields form (word ++ word') rest' := by
  induction h with
  | stop form => exact h'
  | call _ ih => exact .call (ih h')
  | inside _ ih => exact .inside (ih h')

theorem Yields.append (h : g.Yields form word []) (h' : g.Yields form' word' rest) :
    g.Yields (form ++ form') (word ++ word') rest :=
  (h.append_right form').trans h'

/-- Forms have one reading, so what is cut off is the end of it. -/
theorem Yields.isPrefix (h : g.Yields form word rest) (whole : g.Yields form word' []) :
    word <+: word' := by
  induction h generalizing word' with
  | stop form => exact List.nil_prefix
  | call _ ih =>
      cases whole with
      | call whole => exact List.cons_prefix_cons.mpr ⟨rfl, ih whole⟩
  | inside _ ih =>
      cases whole with
      | inside whole => exact ih whole

theorem flushed_notMem_production (g : Graph) (ino : Ino) :
    Symbol.call .flushed ∉ g.production ino := by
  simp [production, listing, directoryRound, fileRound]

theorem Yields.flushed_notMem (h : g.Yields form word rest) (absent : Symbol.call .flushed ∉ form) :
    Call.flushed ∉ word := by
  induction h with
  | stop form => exact List.not_mem_nil
  | call _ ih =>
      simp only [List.mem_cons, Symbol.call.injEq, not_or] at absent ⊢
      exact ⟨absent.1, ih absent.2⟩
  | inside _ ih =>
      apply ih
      simp only [List.mem_append, List.mem_cons, not_or] at absent ⊢
      exact ⟨g.flushed_notMem_production _, absent.2⟩

end Graph
end SaveContainer
