import SaveContainer.Proofs.CallGrammar

/-!
What a refusal changes about printing a graph. Two runs from one state are compared, that of the
graph and that of the same graph with nothing refused. Main statement: they are the same run if no
call of the second is refused in the first; else the first is the second up to the earliest such
call, sees that call fail, and after it only releases.
-/

namespace SaveContainer.Graph

/-- The graph with nothing refused. -/
def plain (g : Graph) : Graph :=
  ⟨g.nodes, none, none⟩

/-- For a call that is refused, what is seen of it instead and the fault that printing ends with. -/
def refusal? (g : Graph) : Call → Option (Call × Fault)
  | .opened n =>
    if g.refusedOpening = some (g.node n).name then
      some (.failedOpen (g.node n).name,
        .enter (g.node n).name (.missing (.refusedOpening (g.node n).name)))
    else none
  | .listed kind n =>
    if g.refusedListing = some ((g.node n).name, kind) then
      some (.failedList kind n, .list n kind (.missing (.refusedListing (g.node n).name)))
    else none
  | _ => none

def Unrefused (g : Graph) (calls : List Call) : Prop :=
  ∀ c ∈ calls, g.refusal? c = none

/-- How a run `o` of the graph compares with the run `p` in which nothing is refused. The first
`free` calls open by number, which nothing refuses. -/
inductive Follows (g : Graph) (free : Nat) (p o : Outcome (Unit × Sink) Unit) : Prop
  | whole : g.Unrefused (p.trace.calls.drop free) → o = p → Follows g free p o
  | cut (before after : Trace) {c seen : Call} {e : Fault} (held : List Handle) :
      p.trace = before ++ .call c :: after → free ≤ before.calls.length →
      g.Unrefused (before.calls.drop free) → g.refusal? c = some (seen, e) →
      o.result = .error e →
      o.trace = before ++ .call seen :: held.map (fun h => .call h.release) →
      Follows g free p o

section Follows

variable {g : Graph} {p o : Outcome (Unit × Sink) Unit}

theorem Unrefused.append {calls calls' : List Call} (h : g.Unrefused calls)
    (h' : g.Unrefused calls') : g.Unrefused (calls ++ calls') := by
  intro c hc
  rcases List.mem_append.mp hc with hc | hc
  · exact h c hc
  · exact h' c hc

theorem unrefused_release (h : Handle) : g.Unrefused [h.release] := by
  intro c hc
  obtain rfl := List.mem_singleton.mp hc
  cases h <;> rfl

theorem Follows.refl (p : Outcome (Unit × Sink) Unit) (h : g.Unrefused p.trace.calls) :
    g.Follows 0 p p :=
  .whole h rfl

/-- What both runs did before belongs to them, too. -/
theorem Follows.after {free : Nat} {t : Trace} (h : g.Follows 0 p o) (le : free ≤ t.calls.length)
    (unrefused : g.Unrefused (t.calls.drop free)) :
    g.Follows free ⟨p.result, p.state, t ++ p.trace⟩ ⟨o.result, o.state, t ++ o.trace⟩ := by
  cases h with
  | whole all eq =>
      refine .whole ?_ (by rw [eq])
      rw [Trace.calls_append, List.drop_append_of_le_length le]
      exact unrefused.append all
  | cut before after held reaches _ first refused result trace =>
      refine .cut (t ++ before) after held ?_ ?_ ?_ refused result ?_
      · rw [reaches, List.append_assoc]
      · rw [Trace.calls_append, List.length_append]
        omega
      · rw [Trace.calls_append, List.drop_append_of_le_length le]
        exact unrefused.append first
      · rw [trace, List.append_assoc]

/-- Both runs are followed by the same calls, unless the first of them was cut. -/
theorem Follows.seq {m m' : Act (Unit × Sink) Unit} {next next' : Act (Unit × Sink) Unit}
    {s : Unit × Sink} (h : g.Follows 0 (m' s) (m s)) (rest : ∀ s, g.Follows 0 (next' s) (next s)) :
    g.Follows 0 ((do m'; next') s) ((do m; next) s) := by
  cases h with
  | whole all eq =>
      cases hm : (m' s).result with
      | error e =>
          rw [Act.bind_of_error hm, Act.bind_of_error (eq ▸ hm), eq]
          exact .refl _ all
      | ok u =>
          rw [Act.bind_of_ok hm, Act.bind_of_ok (eq ▸ hm), eq]
          exact (rest (m' s).state).after (Nat.zero_le _) all
  | @cut before after c seen e held reaches le first refused result trace =>
      -- The plain run goes on or stops by itself; in both cases it has passed the refused call.
      have reaches' : ∃ more, ((do m'; next') s).trace = before ++ .call c :: more := by
        cases hm : (m' s).result with
        | error f => exact ⟨after, by rw [Act.bind_of_error hm, reaches]⟩
        | ok u => exact ⟨_, by rw [Act.bind_of_ok hm, reaches, List.append_assoc, List.cons_append]⟩
      obtain ⟨more, reaches'⟩ := reaches'
      rw [Act.bind_of_error result]
      exact .cut before more held reaches' le first refused rfl trace

theorem Follows.closing (h : g.Follows 0 p o) (handle : Handle) :
    g.Follows 0 ⟨p.result, p.state, p.trace ++ [.call handle.release]⟩
      ⟨o.result, o.state, o.trace ++ [.call handle.release]⟩ := by
  cases h with
  | whole all eq =>
      refine .whole ?_ (by rw [eq])
      rw [Trace.calls_append]
      exact all.append (unrefused_release handle)
  | cut before after held reaches le first refused result trace =>
      refine .cut before (after ++ [.call handle.release]) (held ++ [handle]) ?_ le first refused
        result ?_
      · rw [reaches, List.append_assoc, List.cons_append]
      · rw [trace, List.append_assoc, List.map_append, List.cons_append]
        rfl

/-- The log is told of a list's end only if nothing was cut. -/
theorem Follows.logged (h : g.Follows 0 p o) (ino : Ino) (kind : EntryKind) :
    g.Follows 0 ⟨p.result, p.state, p.trace ++ Hierarchy.listEnd ino kind p.result⟩
      ⟨o.result, o.state, o.trace ++ Hierarchy.listEnd ino kind o.result⟩ := by
  cases h with
  | whole all eq =>
      refine .whole ?_ (by rw [eq])
      rw [Trace.calls_append, Hierarchy.listEnd_calls, List.append_nil]
      exact all
  | cut before after held reaches le first refused result trace =>
      refine .cut before (after ++ Hierarchy.listEnd ino kind p.result) held ?_ le first refused
        result ?_
      · rw [reaches, List.append_assoc, List.cons_append]
      · rw [trace, result, Hierarchy.listEnd, List.append_nil]

end Follows

/-- From every state, `m` follows the act `m'` in which nothing is refused. -/
def InStep (g : Graph) (m' m : Act (Unit × Sink) Unit) : Prop :=
  ∀ s, g.Follows 0 (m' s) (m s)

section Walk

variable {g : Graph} {kind : EntryKind} {n : Ino}

theorem InStep.refl {m : Act (Unit × Sink) Unit} (silent : ∀ s, (m s).trace.calls = []) :
    g.InStep m m := by
  intro s
  refine .refl _ ?_
  rw [silent s]
  exact List.forall_mem_nil _

theorem InStep.seq {m m' next next' : Act (Unit × Sink) Unit} (first : g.InStep m' m)
    (rest : g.InStep next' next) : g.InStep (do m'; next') (do m; next) :=
  fun s => (first s).seq rest

theorem InStep.got {m m' : Act (Unit × Sink) Unit} (h : g.InStep m' m) (i : Nat) :
    g.InStep (do Act.notes (g.plain.hierarchy.gotEntry n kind i); m')
      (do Act.notes (g.hierarchy.gotEntry n kind i); m) := by
  intro s
  refine (h s).after (t := [.call (.got kind n i)]) (Nat.zero_le _) ?_
  intro c hc
  obtain rfl := List.mem_singleton.mp hc
  rfl

theorem InStep.cons {body body' : Entry → Act (Unit × Sink) Unit} {start : Nat} {e : Entry}
    {rest : List Entry} (first : g.InStep (body' e) (body e))
    (others : g.InStep (g.plain.hierarchy.overEntries n kind body' (start + 1) rest)
      (g.hierarchy.overEntries n kind body (start + 1) rest)) :
    g.InStep (g.plain.hierarchy.overEntries n kind body' start (e :: rest))
      (g.hierarchy.overEntries n kind body start (e :: rest)) := by
  rw [Hierarchy.overEntries_cons, Hierarchy.overEntries_cons]
  exact (first.got start).seq others

theorem InStep.listing (depth : Nat) {body body' : Entry → Act (Unit × Sink) Unit}
    (loop : g.InStep
      (g.plain.hierarchy.overEntries n kind body' 0 (((g.node n).members kind).map g.entry))
      (g.hierarchy.overEntries n kind body 0 (((g.node n).members kind).map g.entry))) :
    g.InStep (g.plain.hierarchy.forEntries depth n kind body')
      (g.hierarchy.forEntries depth n kind body) := by
  intro s
  have listed : g.hierarchy.list n kind s.1 = _ := g.list_run n kind s.1
  have listed' : g.plain.hierarchy.list n kind s.1 = _ := g.plain.list_run n kind s.1
  rw [if_neg nofun] at listed'
  rw [Hierarchy.forEntries_of_ok (congrArg Outcome.result listed'), listed']
  by_cases refused : g.refusedListing = some ((g.node n).name, kind)
  · rw [if_pos refused] at listed
    rw [Hierarchy.forEntries_of_error (congrArg Outcome.result listed), listed]
    exact .cut [] _ [] (c := .listed kind n) rfl (Nat.zero_le _) (List.forall_mem_nil _)
      (if_pos refused) rfl rfl
  · rw [if_neg refused] at listed
    rw [Hierarchy.forEntries_of_ok (congrArg Outcome.result listed), listed]
    have unrefused : g.Unrefused [.listed kind n] := List.forall_mem_singleton.mpr (if_neg refused)
    have inside := ((loop (s.1, s.2)).logged n kind).closing (.list kind n)
    exact inside.after (t := [.call (.listed kind n), .event (.openList n kind),
      .event (.listed n depth kind _)]) (Nat.zero_le _) unrefused

section Directories

variable {levels : Nat} (below : ∀ n depth,
  g.InStep (g.plain.hierarchy.printWithin levels depth n) (g.hierarchy.printWithin levels depth n))
include below

end Directories

end Walk

end SaveContainer.Graph
