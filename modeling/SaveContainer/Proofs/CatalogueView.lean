import SaveContainer.Proofs.PackedPrinting
import SaveContainer.Proofs.Quiet

/-!
Catalogues as views. Main statements: what a catalogue is printed as is the tree that its root
unfolds to, and its lists show what is inside a directory in the order in which the members first
ask for it.
-/

namespace SaveContainer

namespace Place

theorem map_fst_inside (settled : List Place) (path : List (List Char)) (kind : EntryKind) :
    (inside settled path kind).map Prod.fst = settled.filter fun x => x.IsChild path kind := by
  have all : (numbered settled).map Prod.fst = root :: settled := List.zipIdx_map_fst ..
  have top : ¬root.IsChild path kind := fun h => h.2.1 rfl
  have filtered := List.filter_map (f := Prod.fst) (p := fun x : Place => x.IsChild path kind)
    (l := numbered settled)
  rw [all, List.filter_cons_of_neg (by simpa using top)] at filtered
  exact filtered.symm

/-- What is kept stands where it stood first. -/
theorem pairwise_idxOf_eraseDups {α : Type} [DecidableEq α] (xs : List α) :
    xs.eraseDups.Pairwise fun a b => xs.idxOf a < xs.idxOf b := by
  induction xs using List.reverseRecOn with
  | nil => exact .nil
  | append_singleton xs x ih =>
      have before : xs.eraseDups.Pairwise fun a b =>
          (xs ++ [x]).idxOf a < (xs ++ [x]).idxOf b := by
        refine ih.imp_of_mem fun ha hb lt => ?_
        rw [List.idxOf_append_of_mem (List.mem_eraseDups.mp ha),
          List.idxOf_append_of_mem (List.mem_eraseDups.mp hb)]
        exact lt
      rw [eraseDups_concat]
      split
      · exact before
      · next fresh =>
          refine List.pairwise_append.mpr ⟨before, List.pairwise_singleton _ _, fun a ha b hb => ?_⟩
          obtain rfl := List.mem_singleton.mp hb
          have mem := List.mem_eraseDups.mp ha
          rw [List.idxOf_append_of_mem mem, List.idxOf_append_of_notMem fresh]
          exact Nat.lt_add_right _ (List.idxOf_lt_length_of_mem mem)

/-- What is asked for by an earlier element comes first. -/
theorem idxOf_flatMap_lt {α β : Type} [DecidableEq β] {f : α → List β} {xs : List α} {a b : β}
    (first : xs.findIdx (fun x => a ∈ f x) < xs.findIdx fun x => b ∈ f x) :
    (xs.flatMap f).idxOf a < (xs.flatMap f).idxOf b := by
  induction xs with
  | nil => simp at first
  | cons x xs ih =>
      rw [List.findIdx_cons, List.findIdx_cons] at first
      rw [List.flatMap_cons]
      by_cases hb : b ∈ f x
      · simp [hb] at first
      · rw [List.idxOf_append_of_notMem hb]
        by_cases ha : a ∈ f x
        · rw [List.idxOf_append_of_mem ha]
          exact Nat.lt_add_right _ (List.idxOf_lt_length_of_mem ha)
        · rw [List.idxOf_append_of_notMem ha]
          simp only [ha, hb, decide_false, cond_false] at first
          exact Nat.add_lt_add_left (ih (Nat.lt_of_succ_lt_succ first)) _

end Place

namespace Catalogue

open Place

/-- What the directories of a catalogue show. -/
def view (c : Catalogue) : View Ino where
  directories ino := some ((c.entries ino .directory).map fun e => (e.name, e.ino))
  files ino := some ((c.entries ino .file).map Entry.name)

theorem view_names (c : Catalogue) (ino : Ino) (kind : EntryKind) :
    c.view.names ino kind = some ((c.entries ino kind).map Entry.name) := by
  cases kind <;> simp [View.names, view, Function.comp_def]

namespace Represents

variable {σ : Type} {c : Catalogue} {settled : List Place} (h : Represents c settled)
include h

theorem presentsOn : (Packed.hierarchy σ c).PresentsOn c.view id (fun _ => True) fun ino =>
    ∃ p, (⟨p, .directory⟩, ino) ∈ numbered settled where
  list ino kind s := by
    rintro ⟨p, at_ino⟩ -
    refine ⟨trivial, ((Packed.quiet σ c).list ino kind s).written, ?_⟩
    have run : (Packed.hierarchy σ c).list ino kind s = _ := h.packed_list_run at_ino kind s
    rw [run, id_eq, view_names, h.entries_eq at_ino]
    rfl
  enter ino s subs := by
    rintro ⟨p, at_ino⟩ - listed sub mem
    refine ⟨trivial, ((Packed.quiet σ c).subdirectory ino sub.1 s).written, ?_⟩
    cases listed
    rw [id_eq, h.entries_eq at_ino, List.map_map] at mem
    obtain ⟨x, hx, rfl⟩ := List.mem_map.mp mem
    have run : (Packed.hierarchy σ c).subdirectory ino (c.entry x).name s = _ :=
      h.packed_subdirectory_run at_ino hx s
    obtain ⟨part, n, rfl, at_n⟩ := exists_of_mem_inside hx
    exact ⟨n, congrArg Outcome.result run, rfl, _, at_n⟩
  gotEntry _ _ _ := rfl
  releasedList _ _ := rfl
  released _ := rfl

theorem text_of_unfolds {t : Tree} (unfolds : c.view.Unfolds rootIno t) (low : t.height ≤ maxDepth)
    (s : σ) : ((Packed.hierarchy σ c).text s).result = .ok (String.ofList (t.render 0)) := by
  have run := h.packed_root_run s
  have shown := h.presentsOn.text_of_root (congrArg Outcome.result run)
    (congrArg (fun o => o.trace.written) run) trivial ⟨[], List.mem_cons_self ..⟩
  rcases shown with ⟨u, hu, -, text⟩ | ⟨-, high⟩
  · rw [unfolds.unique hu]
    exact text
  · exact absurd (high t unfolds) (Nat.not_lt.mpr low)

end Represents

end Catalogue

end SaveContainer
