import SaveContainer.Proofs.Quiet

/-!
What a limit of the sink changes about printing. Two runs from one state are compared, one into a
sink and one into the same sink without its limits. Main statement: how large the pieces are is
not seen at all; a budget without room for the whole text cuts the run in the middle of the first
line that it has no room for, and only releases follow.
-/

namespace SaveContainer

/-- The trace without what was written. -/
def Trace.dry (t : Trace) : Trace :=
  t.filter fun | .wrote _ => false | _ => true

namespace Trace

variable {t u : Trace}

theorem dry_append (t u : Trace) : dry (t ++ u) = dry t ++ dry u :=
  List.filter_append ..

theorem dry_pieces (pieces : List (List UInt8)) : dry (pieces.map .wrote) = [] := by
  refine List.filter_eq_nil_iff.mpr fun a ha => ?_
  obtain ⟨bytes, -, rfl⟩ := List.mem_map.mp ha
  exact Bool.false_ne_true

theorem calls_dry (t : Trace) : calls (dry t) = calls t := by
  induction t with
  | nil => rfl
  | cons a t ih =>
      cases a with
      | call c => exact congrArg (c :: ·) ih
      | event e => exact ih
      | wrote bytes => exact ih

theorem flushed_notMem_append :
    Call.flushed ∉ calls (t ++ u) ↔ Call.flushed ∉ calls t ∧ Call.flushed ∉ calls u := by
  rw [calls_append, List.mem_append, not_or]

end Trace

/-- The sink without its limits. It still may fail to flush. -/
def Sink.unbounded (k : Sink) : Sink :=
  { k with budget := none, chunk := none }

/-- Without limits one write is enough. -/
theorem Sink.writeAll_unbounded (k : Sink) {bytes : List UInt8} (ne : bytes ≠ []) :
    writeAll bytes k.unbounded = ⟨.ok (), k.unbounded, [.wrote bytes]⟩ := by
  cases bytes with
  | nil => exact absurd rfl ne
  | cons b bytes =>
      have chunk : k.unbounded.chunk ≠ some 0 := (Option.some_ne_none 0).symm
      have size : k.unbounded.pieceSize (b :: bytes).length = (b :: bytes).length := rfl
      rw [writeAll, List.length_cons, writeWithin_succ chunk _ b bytes size rfl, List.drop_length,
        List.take_length, writeWithin_nil]
      rfl

namespace Hierarchy

variable {σ D α β : Type} {h : Hierarchy σ D}

/-- The limits of the sink `k` were not felt: `o` is how the run into it ended, `u` the other. -/
structure Whole (k : Sink) (o u : Outcome (σ × Sink) α) : Prop where
  fits : k.fits u.trace.written.length
  result : o.result = u.result
  state : o.state = (u.state.1, k.spend u.trace.written.length)
  written : o.trace.written = u.trace.written
  dry : o.trace.dry = u.trace.dry

/-- What is seen of the release of a directory, or of one of its lists. -/
def releaseOf (h : Hierarchy σ D) : D × Option EntryKind → Trace
  | (d, none) => h.released d
  | (d, some kind) => h.releasedList d kind

/-- The budget of the sink `k` ended the run into it within `line`. -/
structure Cut (h : Hierarchy σ D) (k : Sink) (o u : Outcome (σ × Sink) α) : Prop where
  short : k.fits u.trace.written.length = false
  result : o.result = .error k.refusal
  fits : k.fits o.trace.written.length
  trace : ∃ (before after own : Trace) (line : List UInt8) (pieces : List (List UInt8))
      (held : List (D × Option EntryKind)),
    u.trace = before ++ .wrote line :: after ∧
      o.trace = own ++ (pieces.map .wrote ++ held.flatMap h.releaseOf) ∧
      own.dry = before.dry ∧ own.written = before.written ∧
      pieces.flatten <+: line ∧ pieces.flatten ≠ line

/-- How a part of the walk ends in both runs. -/
structure Ends (h : Hierarchy σ D) (k : Sink) (o u : Outcome (σ × Sink) α) : Prop where
  sink : u.state.2 = k.unbounded
  unflushed : Call.flushed ∉ u.trace.calls
  whole_or_cut : Whole k o u ∨ Cut h k o u

def Tracks (h : Hierarchy σ D) (m : Act (σ × Sink) α) : Prop :=
  ∀ s k, k.chunk ≠ some 0 → Ends h k (m (s, k)) (m (s, k.unbounded))

section Ends

variable {k : Sink} {o u : Outcome (σ × Sink) α}

theorem Ends.of_quiet (k : Sink) (r : Except Fault α) (s : σ) {t : Trace} (quiet : t.IsQuiet) :
    Ends h k ⟨r, (s, k), t⟩ ⟨r, (s, k.unbounded), t⟩ := by
  refine ⟨rfl, quiet.unflushed, .inl ⟨?_, rfl, ?_, rfl, rfl⟩⟩
  · rw [quiet.written]
    exact Sink.fits_zero
  · rw [quiet.written]
    exact congrArg (Prod.mk s) Sink.spend_zero.symm

/-- A cut stays a cut, whatever the other run goes on to do. -/
theorem Cut.goesOn (cut : Cut h k o u) {o' u' : Outcome (σ × Sink) β} {more : Trace}
    (result : o'.result = .error k.refusal) (own : o'.trace = o.trace)
    (trace : u'.trace = u.trace ++ more) : Cut h k o' u' := by
  obtain ⟨before, after, same, line, pieces, held, reaches, ended, line'⟩ := cut.trace
  refine ⟨?_, result, own ▸ cut.fits,
    before, after ++ more, same, line, pieces, held, ?_, own ▸ ended, line'⟩
  · rw [trace, Trace.written_append, List.length_append]
    exact Sink.short_mono (Nat.le_add_right _ _) cut.short
  · rw [trace, reaches, List.append_assoc, List.cons_append]

theorem Ends.closing (ends : Ends h k o u) (x : D × Option EntryKind)
    (quiet : (h.releaseOf x).IsQuiet) :
    Ends h k ⟨o.result, o.state, o.trace ++ h.releaseOf x⟩
      ⟨u.result, u.state, u.trace ++ h.releaseOf x⟩ := by
  have unflushed := Trace.flushed_notMem_append.mpr ⟨ends.unflushed, quiet.unflushed⟩
  refine ⟨ends.sink, unflushed, ends.whole_or_cut.imp ?_ ?_⟩
  · intro whole
    have written : (u.trace ++ h.releaseOf x).written = u.trace.written := by
      rw [Trace.written_append, quiet.written, List.append_nil]
    refine ⟨?_, whole.result, ?_, ?_, ?_⟩
    · rw [written]
      exact whole.fits
    · rw [written]
      exact whole.state
    · rw [Trace.written_append, Trace.written_append, whole.written]
    · rw [Trace.dry_append, Trace.dry_append, whole.dry]
  · intro cut
    obtain ⟨before, after, own, line, pieces, held, reaches, ended, line'⟩ := cut.trace
    refine ⟨?_, cut.result, ?_, before, after ++ h.releaseOf x, own, line, pieces, held ++ [x],
      ?_, ?_, line'⟩
    · rw [Trace.written_append, quiet.written, List.append_nil]
      exact cut.short
    · rw [Trace.written_append, quiet.written, List.append_nil]
      exact cut.fits
    · rw [reaches, List.append_assoc, List.cons_append]
    · rw [ended, List.append_assoc, List.append_assoc, List.flatMap_append,
        List.flatMap_singleton]

/-- What was done before without feeling a limit leaves the budget smaller. -/
theorem Whole.followed {next next' : Outcome (σ × Sink) β} (first : Whole k o u)
    (second : Ends h (k.spend u.trace.written.length) next next')
    (unflushed : Call.flushed ∉ u.trace.calls) :
    Ends h k ⟨next.result, next.state, o.trace ++ next.trace⟩
      ⟨next'.result, next'.state, u.trace ++ next'.trace⟩ := by
  have unflushed' := Trace.flushed_notMem_append.mpr ⟨unflushed, second.unflushed⟩
  refine ⟨second.sink, unflushed', second.whole_or_cut.imp ?_ ?_⟩
  · intro whole
    refine ⟨?_, whole.result, ?_, ?_, ?_⟩
    · rw [Trace.written_append, List.length_append, ← Sink.fits_spend first.fits]
      exact whole.fits
    · rw [Trace.written_append, List.length_append, ← Sink.spend_spend]
      exact whole.state
    · rw [Trace.written_append, Trace.written_append, first.written, whole.written]
    · rw [Trace.dry_append, Trace.dry_append, first.dry, whole.dry]
  · intro cut
    obtain ⟨before, after, own, line, pieces, held, reaches, ended, dry, written, line'⟩ :=
      cut.trace
    refine ⟨?_, cut.result, ?_, u.trace ++ before, after, o.trace ++ own, line, pieces, held,
      ?_, ?_, ?_, ?_, line'⟩
    · rw [Trace.written_append, List.length_append, ← Sink.fits_spend first.fits]
      exact cut.short
    · rw [Trace.written_append, List.length_append, first.written, ← Sink.fits_spend first.fits]
      exact cut.fits
    · rw [reaches, List.append_assoc]
    · rw [ended, List.append_assoc]
    · rw [Trace.dry_append, Trace.dry_append, first.dry, dry]
    · rw [Trace.written_append, Trace.written_append, first.written, written]

end Ends

theorem Tracks.bind {m : Act (σ × Sink) α} {f : α → Act (σ × Sink) β} (first : Tracks h m)
    (rest : ∀ a, Tracks h (f a)) : Tracks h (m >>= f) := by
  intro s k hk
  have ends := first s k hk
  have sink : (m (s, k.unbounded)).state = ((m (s, k.unbounded)).state.1, k.unbounded) :=
    Prod.ext rfl ends.sink
  rcases ends.whole_or_cut with whole | cut
  · cases hu : (m (s, k.unbounded)).result with
    | error e =>
        rw [Act.bind_of_error hu, Act.bind_of_error (whole.result.trans hu)]
        exact ⟨ends.sink, ends.unflushed,
          .inl ⟨whole.fits, rfl, whole.state, whole.written, whole.dry⟩⟩
    | ok a =>
        have second := rest a (m (s, k.unbounded)).state.1
          (k.spend (m (s, k.unbounded)).trace.written.length) hk
        rw [Act.bind_of_ok hu, Act.bind_of_ok (whole.result.trans hu), whole.state, sink]
        exact whole.followed second ends.unflushed
  -- Only the run without limits may go on, and nothing has to be known of what it does then.
  · rw [Act.bind_of_error cut.result]
    cases hu : (m (s, k.unbounded)).result with
    | error e =>
        rw [Act.bind_of_error hu]
        exact ⟨ends.sink, ends.unflushed,
          .inr (cut.goesOn rfl rfl (List.append_nil _).symm)⟩
    | ok a =>
        have second := rest a (m (s, k.unbounded)).state.1 k hk
        rw [Act.bind_of_ok hu, sink]
        exact ⟨second.sink, Trace.flushed_notMem_append.mpr ⟨ends.unflushed, second.unflushed⟩,
          .inr (cut.goesOn rfl rfl rfl)⟩

theorem Tracks.closing {m : Act (σ × Sink) Unit} (tracks : Tracks h m)
    (x : D × Option EntryKind) (quiet : (h.releaseOf x).IsQuiet) :
    Tracks h (m.closing (h.releaseOf x)) :=
  fun s k hk => (tracks s k hk).closing x quiet

theorem tracks_notes {t : Trace} (quiet : t.IsQuiet) : Tracks h (Act.notes t) :=
  fun s k _ => .of_quiet k (.ok ()) s quiet

theorem tracks_log (e : Event) : Tracks h (Act.log e) :=
  tracks_notes (t := [.event e]) rfl

/-- What the container does depends on its own state, which the sink is no part of. -/
theorem tracks_onFirst {m : Act σ α} (quiet : m.Quiet) : Tracks h m.onFirst := by
  intro s k _
  rw [Act.onFirst_run, Act.onFirst_run]
  exact .of_quiet k (m s).result (m s).state (quiet s)

theorem tracks_writeLine (depth : Nat) (kind : EntryKind) (name : ShortName) :
    Tracks h (writeLine depth kind name) := by
  intro s k hk
  rw [writeLine_run, writeLine_run]
  -- A line has a newline at least, so that the sink is asked in both runs.
  have ne : Utf8.encode (Tree.line depth kind.marker name) ≠ [] := by
    intro nothing
    rw [Tree.line, Utf8.encode_append] at nothing
    exact absurd nothing (List.append_ne_nil_of_right_ne_nil _ (by decide))
  generalize Utf8.encode (Tree.line depth kind.marker name) = line at ne ⊢
  rw [Sink.writeAll_unbounded k ne]
  obtain ⟨pieces, trace⟩ := Sink.writeWithin_pieces line.length line k
  have unlimited : Trace.written [.wrote line] = line := List.append_nil line
  refine ⟨rfl, List.not_mem_nil, ?_⟩
  cases room : k.fits line.length with
  | true =>
      obtain ⟨result, state, written⟩ := Sink.writeWithin_of_fits hk (Nat.le_refl _) room
      rw [← Sink.writeAll] at trace result state written
      refine .inl ⟨?_, result, ?_, ?_, ?_⟩
      · rwa [unlimited]
      · rw [unlimited, state]
      · rw [unlimited, written]
      · dsimp only
        rw [trace, Trace.dry_pieces]
        rfl
  | false =>
      obtain ⟨result, isPrefix, ne, fits⟩ := Sink.writeWithin_of_short hk (Nat.le_refl _) room
      rw [← Sink.writeAll] at trace result isPrefix ne fits
      rw [trace, Trace.written_pieces] at isPrefix ne
      refine .inr ⟨?_, result, fits, [], [], [], line, pieces, [], rfl, ?_, rfl, rfl, isPrefix, ne⟩
      · rwa [unlimited]
      · exact trace.trans (List.append_nil _).symm

theorem tracks_eachEntry {body : Nat → Entry → Act (σ × Sink) Unit}
    (each : ∀ i e, Tracks h (body i e)) (start : Nat) (entries : List Entry) :
    Tracks h (eachEntry body start entries) := by
  induction entries generalizing start with
  | nil => exact tracks_notes Trace.isQuiet_nil
  | cons e rest ih => exact (each start e).bind fun _ => ih (start + 1)

section Walk

variable (quiet : h.Quiet)
include quiet

theorem Quiet.tracks_forEntries (depth : Nat) (d : D) (kind : EntryKind)
    {body : Entry → Act (σ × Sink) Unit} (each : ∀ e, Tracks h (body e)) :
    Tracks h (h.forEntries depth d kind body) := by
  have listing : Tracks h ((h.list d kind).mapFault (.list (h.ino d) kind)).onFirst :=
    tracks_onFirst (quiet.list d kind)
  refine listing.bind fun entries => Tracks.closing ?_ (d, some kind) (quiet.releasedList d kind)
  refine (tracks_log _).bind fun _ => (tracks_log _).bind fun _ => ?_
  refine Tracks.bind ?_ fun _ => tracks_log _
  exact tracks_eachEntry
    (fun i e => (tracks_notes (quiet.gotEntry d kind i)).bind fun _ => each e) 0 entries

/-- The levels left count down from one directory to those in it. -/
theorem Quiet.tracks_printWithin (levels depth : Nat) (d : D) :
    Tracks h (h.printWithin levels depth d) := by
  induction levels generalizing depth d with
  | zero => exact fun s k _ => .of_quiet k _ s Trace.isQuiet_nil
  | succ levels ih =>
      rw [printWithin_succ]
      refine Tracks.bind (quiet.tracks_forEntries depth d .directory fun e => ?_) fun _ =>
        quiet.tracks_forEntries depth d .file fun e => ?_
      · have opening : Tracks h ((h.subdirectory d e.name).mapFault (.enter e.name)).onFirst :=
          tracks_onFirst (quiet.subdirectory d e.name)
        refine (tracks_writeLine depth .directory e.name).bind fun _ => opening.bind fun c => ?_
        exact (ih (depth + 1) c).closing (c, none) (quiet.released c)
      · exact (tracks_log _).bind fun _ => tracks_writeLine depth .file e.name

theorem Quiet.tracks_walk : Tracks h h.walk := by
  have opening : Tracks h h.root.onFirst := tracks_onFirst quiet.root
  exact opening.bind fun d =>
    (quiet.tracks_printWithin (maxDepth + 1 - 0) 0 d).closing (d, none) (quiet.released d)

end Walk

/-- Where the walk has a result, the root was released last. -/
theorem walk_of_ok {s : σ × Sink} (done : (h.walk s).result = .ok ()) :
    ∃ d body, (h.root s.1).result = .ok d ∧ (h.walk s).trace = body ++ h.released d := by
  obtain ⟨d, opened, -⟩ := Act.exists_of_bind_ok done
  rw [walk, Act.bind_of_ok opened, Act.closing_run, ← List.append_assoc]
  exact ⟨d, _, opened, rfl⟩

/-- How `o`, printing into the sink `k` from the state `s`, compares with `u`, printing into the
same sink without its limits. -/
structure Limited (h : Hierarchy σ D) (s : σ) (k : Sink) (o u : Outcome (σ × Sink) Unit) :
    Prop where
  isPrefix : o.trace.written <+: u.trace.written
  /-- How large the pieces are makes no difference to what is written, called, logged or reached. -/
  whole : k.fits u.trace.written.length →
    o.result = u.result ∧ o.state.1 = u.state.1 ∧ o.trace.written = u.trace.written ∧
      o.trace.dry = u.trace.dry
  cut : k.fits u.trace.written.length = false → Cut h k o u
  /-- The sink is flushed once, after the root was released, if the walk has a result. -/
  flushed : (h.walk (s, k)).result = .ok () → o.trace.written = u.trace.written ∧
    (o.result = if k.flushFails then .error (.io .flushFailed) else .ok ()) ∧
    ∃ d body, (h.root s).result = .ok d ∧ o.trace = body ++ h.released d ++ [.call .flushed] ∧
      Call.flushed ∉ (body ++ h.released d).calls
  unflushed : ∀ e, (h.walk (s, k)).result = .error e →
    o.result = .error e ∧ Call.flushed ∉ o.trace.calls

theorem Quiet.releases (quiet : h.Quiet) (held : List (D × Option EntryKind)) :
    Trace.IsQuiet (held.flatMap h.releaseOf) := by
  induction held with
  | nil => exact Trace.isQuiet_nil
  | cons x held ih =>
      rw [List.flatMap_cons]
      refine Trace.IsQuiet.append ?_ ih
      obtain ⟨d, _ | kind⟩ := x
      · exact quiet.released d
      · exact quiet.releasedList d kind

theorem Cut.isPrefix {k : Sink} {o u : Outcome (σ × Sink) α} (cut : Cut h k o u)
    (quiet : h.Quiet) : o.trace.written <+: u.trace.written := by
  obtain ⟨before, after, own, line, pieces, held, reaches, ended, -, written, ⟨rest, line'⟩, -⟩ :=
    cut.trace
  refine ⟨rest ++ after.written, ?_⟩
  rw [ended, reaches, Trace.written_append, Trace.written_append, Trace.written_append,
    Trace.written_cons_wrote, Trace.written_pieces, (quiet.releases held).written, written,
    ← line']
  simp only [List.append_nil, List.append_assoc]

theorem Cut.unflushed {k : Sink} {o u : Outcome (σ × Sink) α} (cut : Cut h k o u)
    (quiet : h.Quiet) (unflushed : Call.flushed ∉ u.trace.calls) :
    Call.flushed ∉ o.trace.calls := by
  obtain ⟨before, after, own, line, pieces, held, reaches, ended, dry, -⟩ := cut.trace
  have calls : own.calls = before.calls := by rw [← Trace.calls_dry, dry, Trace.calls_dry]
  rw [reaches, Trace.flushed_notMem_append, ← calls] at unflushed
  rw [ended, Trace.flushed_notMem_append, Trace.flushed_notMem_append, Trace.calls_pieces]
  exact ⟨unflushed.1, List.not_mem_nil, (quiet.releases held).unflushed⟩

/-- If the walk did not feel the limits, flushing the sink does not, either. -/
theorem Whole.print {s : σ} {k : Sink} (walk : Whole k (h.walk (s, k)) (h.walk (s, k.unbounded)))
    (sink : (h.walk (s, k.unbounded)).state.2 = k.unbounded) :
    Whole k (h.print (s, k)) (h.print (s, k.unbounded)) := by
  cases hu : (h.walk (s, k.unbounded)).result with
  | error e =>
      rw [print_of_stopped hu, print_of_stopped (walk.result.trans hu)]
      exact ⟨walk.fits, rfl, walk.state, walk.written, walk.dry⟩
  | ok u =>
      have flushes : (h.walk (s, k)).state.2.flushFails =
          (h.walk (s, k.unbounded)).state.2.flushFails := by
        rw [walk.state, sink]
        rfl
      have silent (t : Trace) : Trace.written (t ++ [.call .flushed]) = t.written :=
        (Trace.written_append t _).trans (List.append_nil _)
      rw [print_of_walked hu, print_of_walked (walk.result.trans hu), flushes]
      refine ⟨?_, rfl, ?_, ?_, ?_⟩
      · rw [silent]
        exact walk.fits
      · rw [silent]
        exact walk.state
      · rw [silent, silent, walk.written]
      · rw [Trace.dry_append, Trace.dry_append, walk.dry]

theorem Cut.print {s : σ} {k : Sink} (walk : Cut h k (h.walk (s, k)) (h.walk (s, k.unbounded))) :
    Cut h k (h.print (s, k)) (h.print (s, k.unbounded)) := by
  rw [print_of_stopped walk.result]
  cases hu : (h.walk (s, k.unbounded)).result with
  | error e =>
      rw [print_of_stopped hu]
      exact walk.goesOn rfl rfl (List.append_nil _).symm
  | ok u =>
      rw [print_of_walked hu]
      exact walk.goesOn rfl rfl rfl

theorem Quiet.limited (quiet : h.Quiet) (s : σ) {k : Sink} (hk : k.chunk ≠ some 0) :
    Limited h s k (h.print (s, k)) (h.print (s, k.unbounded)) := by
  have ends := quiet.tracks_walk s k hk
  rcases ends.whole_or_cut with whole | cut
  · have print := whole.print ends.sink
    have unflushed : Call.flushed ∉ (h.walk (s, k)).trace.calls := by
      rw [← Trace.calls_dry, whole.dry, Trace.calls_dry]
      exact ends.unflushed
    refine ⟨print.written ▸ List.prefix_rfl, ?_, ?_, ?_, ?_⟩
    · intro _
      exact ⟨print.result, by rw [print.state], print.written, print.dry⟩
    · intro short
      exact absurd print.fits (Bool.eq_false_iff.mp short)
    · intro done
      obtain ⟨d, body, opened, trace⟩ := walk_of_ok done
      refine ⟨print.written, ?_, d, body, opened, ?_, trace ▸ unflushed⟩
      · rw [print_of_walked done, whole.state]
        rfl
      · rw [print_of_walked done, trace]
    · intro e failed
      rw [print_of_stopped failed]
      exact ⟨rfl, unflushed⟩
  · have print := cut.print
    refine ⟨print.isPrefix quiet, ?_, fun _ => print, ?_, ?_⟩
    · intro room
      exact absurd room (Bool.eq_false_iff.mp print.short)
    · intro done
      rw [cut.result] at done
      cases done
    · intro e failed
      rw [print_of_stopped failed]
      exact ⟨rfl, cut.unflushed quiet ends.unflushed⟩

end Hierarchy

/-- Graphs, with refusals or without, and packed and extracted containers are printed like this,
and so is whatever leaves the sink to the printer. -/
theorem Hierarchy.print_limited (k : Sink) (hk : k.chunk ≠ some 0) :
    (∀ (g : Graph) (s : Unit), Limited g.hierarchy s k (g.hierarchy.print (s, k))
      (g.hierarchy.print (s, k.unbounded))) ∧
    (∀ (σ : Type) (c : Catalogue) (s : σ), Limited (Packed.hierarchy σ c) s k
      ((Packed.hierarchy σ c).print (s, k)) ((Packed.hierarchy σ c).print (s, k.unbounded))) ∧
    (∀ (disk : Disk) (t : PathTable), Limited (Extracted.hierarchy disk) t k
      ((Extracted.hierarchy disk).print (t, k))
      ((Extracted.hierarchy disk).print (t, k.unbounded))) ∧
    ∀ {σ D : Type} (h : Hierarchy σ D), h.Quiet → ∀ s,
      Limited h s k (h.print (s, k)) (h.print (s, k.unbounded)) := by
  refine ⟨?_, ?_, ?_, ?_⟩
  · intro g s
    exact g.quiet.limited s hk
  · intro σ c s
    exact (Packed.quiet σ c).limited s hk
  · intro disk t
    exact (Extracted.quiet disk).limited t hk
  · intro σ D h quiet s
    exact quiet.limited s hk

/-- A budget of three bytes ends between the sign and the end of the second line. -/
theorem Hierarchy.print_limited_withinLine :
    let g : Graph :=
      ⟨[⟨.empty, [2], [3], true⟩, ⟨.empty, [], [], true⟩, ⟨.empty, [], [], false⟩], none, none⟩
    let k : Sink := ⟨some 3, some 1, true, true⟩
    let o := g.hierarchy.print ((), k)
    let u := g.hierarchy.print ((), k.unbounded)
    k.chunk ≠ some 0 ∧ Limited g.hierarchy () k o u ∧
      o.result = .error (.io .nothingWritten) ∧ o.trace.written = Utf8.encode "+\n-".toList ∧
      u.result = .error (.io .flushFailed) ∧ u.trace.written = Utf8.encode "+\n-\n".toList := by
  intro g k o u
  have chunk : k.chunk ≠ some 0 := by decide
  exact ⟨chunk, (print_limited k chunk).1 g (), by decide +kernel, by decide +kernel,
    by decide +kernel, by decide +kernel⟩

end SaveContainer
