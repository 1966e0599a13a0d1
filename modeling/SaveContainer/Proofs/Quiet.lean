import SaveContainer.Extracted
import SaveContainer.Packed
import SaveContainer.Proofs.GraphPrinting

/-!
Containers that leave the sink to the printer. Whatever is asked of one, it writes nothing and
flushes nothing; this holds for graphs, for packed and for extracted containers.
-/

namespace SaveContainer

namespace Trace

def IsQuiet (t : Trace) : Prop :=
  t.unwritten = t

variable {t u : Trace}

theorem isQuiet_nil : IsQuiet [] := rfl

theorem IsQuiet.append (h : t.IsQuiet) (h' : u.IsQuiet) : IsQuiet (t ++ u) := by
  rw [IsQuiet, unwritten_append, h, h']

theorem IsQuiet.written (h : t.IsQuiet) : t.written = [] := by
  refine List.flatMap_eq_nil_iff.mpr fun a ha => ?_
  have kept := List.filter_eq_self.mp h a ha
  cases a with
  | call c => rfl
  | event e => rfl
  | wrote bytes => cases kept

theorem IsQuiet.unflushed (h : t.IsQuiet) : Call.flushed ∉ t.calls := by
  intro mem
  obtain ⟨a, ha, eq⟩ := List.mem_filterMap.mp mem
  have kept := List.filter_eq_self.mp h a ha
  cases a with
  | call c =>
      cases eq
      cases kept
  | event e => cases eq
  | wrote bytes => cases eq

end Trace

namespace Act

variable {σ τ α β : Type}

def Quiet (m : Act σ α) : Prop :=
  ∀ s, (m s).trace.IsQuiet

theorem quiet_ofExcept (r : Except Fault α) : (ofExcept r : Act σ α).Quiet :=
  fun _ => rfl

theorem quiet_log (e : Event) : (log e : Act σ Unit).Quiet :=
  fun _ => rfl

theorem quiet_call (c : Call) (h : c ≠ .flushed) : (note (.call c) : Act σ Unit).Quiet := by
  intro s
  cases c <;> first | rfl | exact absurd rfl h

theorem quiet_get : (get : Act σ σ).Quiet :=
  fun _ => rfl

theorem Quiet.reaching {t : τ} {m : Act τ Unit} (quiet : m.Quiet) :
    (reaching t m : Act σ τ).Quiet :=
  fun _ => quiet t

theorem Quiet.bind {m : Act σ α} {f : α → Act σ β} (first : m.Quiet) (rest : ∀ a, (f a).Quiet) :
    (m >>= f).Quiet := by
  intro s
  cases hm : (m s).result with
  | error e =>
      rw [bind_of_error hm]
      exact first s
  | ok a =>
      rw [bind_of_ok hm]
      exact (first s).append (rest a (m s).state)

theorem Quiet.map {m : Act σ α} (quiet : m.Quiet) (f : α → β) : (f <$> m).Quiet :=
  quiet.bind fun _ => quiet_ofExcept _

end Act

namespace Catalogue

end Catalogue

/-- Neither what the container does nor what is seen of its handles touches the sink. -/
structure Hierarchy.Quiet {σ D : Type} (h : Hierarchy σ D) : Prop where
  root : h.root.Quiet
  list : ∀ d kind, (h.list d kind).Quiet
  subdirectory : ∀ d name, (h.subdirectory d name).Quiet
  gotEntry : ∀ d kind i, (h.gotEntry d kind i).IsQuiet
  releasedList : ∀ d kind, (h.releasedList d kind).IsQuiet
  released : ∀ d, (h.released d).IsQuiet

theorem Graph.quiet (g : Graph) : g.hierarchy.Quiet where
  root := by
    intro s
    change (g.openDirectory rootIno s).trace.IsQuiet
    rcases g.openDirectory_run rootIno s with run | run <;> rw [run] <;> rfl
  list := by
    intro n kind s
    change (g.list n kind s).trace.IsQuiet
    rw [g.list_run n kind s]
    split <;> rfl
  subdirectory := by
    intro n name
    change (g.subdirectory n name).Quiet
    unfold subdirectory
    split
    · exact (Act.quiet_call (.failedOpen name) nofun).bind fun _ => Act.quiet_ofExcept _
    · split
      case h_1 child _ =>
        exact (Act.quiet_call (.opened child) nofun).bind fun _ => Act.quiet_ofExcept _
      case h_2 => exact Act.quiet_ofExcept _
  gotEntry _ _ _ := rfl
  releasedList _ _ := rfl
  released _ := rfl

theorem Packed.quiet (σ : Type) (c : Catalogue) : (hierarchy σ c).Quiet where
  root := by
    change (openDirectory c rootIno).Quiet
    unfold openDirectory
    split
    · exact (Act.quiet_log _).bind fun _ => Act.quiet_ofExcept _
    · exact Act.quiet_ofExcept _
  list := by
    intro n kind
    change (list c n kind).Quiet
    unfold list
    split <;> exact Act.quiet_ofExcept _
  subdirectory := by
    intro n name
    change (subdirectory c n name).Quiet
    unfold subdirectory
    split
    · split
      · exact (Act.quiet_log _).bind fun _ => Act.quiet_ofExcept _
      · exact Act.quiet_ofExcept _
    · exact Act.quiet_ofExcept _
  gotEntry _ _ _ := rfl
  releasedList _ _ := rfl
  released _ := rfl

namespace Extracted

theorem quiet_assign (p : Path) : (assign p).Quiet :=
  fun _ => rfl

theorem quiet_opened (path : Path) (ino : Ino) : (opened path ino).Quiet :=
  (Act.quiet_log _).bind fun _ => Act.quiet_ofExcept _

theorem quiet_openDirectory (disk : Disk) (ino : Ino) : (openDirectory disk ino).Quiet := by
  refine Act.quiet_get.bind fun t => ?_
  split
  · exact Act.quiet_ofExcept _
  · split
    all_goals
      split
      · exact quiet_opened _ _
      · exact Act.quiet_ofExcept _

theorem quiet_takeEntries (d : ExtractedDirectory) (names : List FileName) :
    (takeEntries d names).Quiet := by
  induction names with
  | nil => exact Act.quiet_ofExcept _
  | cons raw rest ih =>
      refine (Act.quiet_ofExcept _).bind fun name => (quiet_assign _).bind fun ino => ?_
      exact ih.bind fun _ => Act.quiet_ofExcept _

theorem quiet (disk : Disk) : (hierarchy disk).Quiet where
  root := quiet_openDirectory disk rootIno
  list d kind := (Act.quiet_ofExcept _).bind fun _ => quiet_takeEntries d _
  subdirectory := by
    intro d name
    change (subdirectory disk d name).Quiet
    unfold subdirectory
    dsimp only
    split
    · exact (quiet_assign _).bind fun _ => quiet_opened _ _
    · exact Act.quiet_ofExcept _
  gotEntry _ _ _ := rfl
  releasedList _ _ := rfl
  released _ := rfl

end Extracted
end SaveContainer
