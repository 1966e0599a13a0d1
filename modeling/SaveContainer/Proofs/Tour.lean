import SaveContainer.Proofs.Numbering

/-!
The settled places in the order in which a tree is printed: each sub-directory with all that is
below it, and then the files. Main statement: a tour from the root that goes deep enough passes
every other place exactly once.
-/

namespace SaveContainer

namespace Place

/-- What is directly inside a path, in increasing order of the numbers. -/
def inside (settled : List Place) (path : List (List Char)) (kind : EntryKind) :
    List (Place × Ino) :=
  (numbered settled).filter fun x => x.1.IsChild path kind

/-- What is below a path, at most `levels` levels deep. -/
def tour (settled : List Place) : (levels : Nat) → List (List Char) → List (Place × Ino)
  | 0, _ => []
  | levels + 1, path =>
    (inside settled path .directory).flatMap (fun x => x :: tour settled levels x.1.path) ++
      inside settled path .file

theorem mem_inside {settled : List Place} {path : List (List Char)} {kind : EntryKind}
    {x : Place × Ino} : x ∈ inside settled path kind ↔
      x ∈ numbered settled ∧ x.1.kind = kind ∧ ∃ part, x.1.path = path ++ [part] := by
  rw [inside, List.mem_filter, decide_eq_true_eq, isChild_iff]

theorem exists_of_mem_inside {settled : List Place} {path : List (List Char)} {kind : EntryKind}
    {x : Place × Ino} (mem : x ∈ inside settled path kind) :
    ∃ part n, x = (⟨path ++ [part], kind⟩, n) ∧ (⟨path ++ [part], kind⟩, n) ∈ numbered settled := by
  obtain ⟨⟨_, _⟩, n⟩ := x
  obtain ⟨numbered, rfl, part, rfl⟩ := mem_inside.mp mem
  exact ⟨part, n, rfl, numbered⟩

theorem nodup_numbered (settled : List Place) : (numbered settled).Nodup := by
  apply List.Nodup.of_map Prod.snd
  rw [numbered, List.zipIdx_map_snd]
  exact List.nodup_range'

theorem nodup_inside (settled : List Place) (path : List (List Char)) (kind : EntryKind) :
    (inside settled path kind).Nodup :=
  (nodup_numbered settled).filter _

end Place

namespace Catalogue.Represents

open Place

variable {c : Catalogue} {settled : List Place} (h : Represents c settled)
include h

/-- On the way to a settled place there are settled directories only. -/
theorem prefix_mem {p q : List (List Char)} {kind : EntryKind}
    (mem : (⟨p ++ q, kind⟩ : Place) ∈ root :: settled) (ne : q ≠ []) :
    ⟨p, .directory⟩ ∈ root :: settled := by
  induction q using List.reverseRecOn generalizing kind with
  | nil => exact absurd rfl ne
  | append_singleton q part ih =>
      rw [← List.append_assoc] at mem
      have parent := h.parent_mem mem
      cases q with
      | nil => simpa using parent
      | cons a q => exact ih parent (List.cons_ne_nil a q)

theorem mem_tour {levels : Nat} {path : List (List Char)} {x : Place × Ino} :
    x ∈ tour settled levels path ↔
      x ∈ numbered settled ∧ ∃ q, q ≠ [] ∧ q.length ≤ levels ∧ x.1.path = path ++ q := by
  induction levels generalizing path with
  | zero =>
      constructor
      · intro mem
        exact absurd mem List.not_mem_nil
      · intro ⟨_, q, ne, le, _⟩
        exact absurd (List.length_eq_zero_iff.mp (Nat.le_zero.mp le)) ne
  | succ levels ih =>
      rw [tour, List.mem_append, List.mem_flatMap]
      constructor
      · rintro (⟨y, hy, hx⟩ | file)
        · obtain ⟨hy, -, part, eq⟩ := mem_inside.mp hy
          cases List.mem_cons.mp hx with
          | inl same =>
              subst same
              exact ⟨hy, [part], by simp, by simp, eq⟩
          | inr below =>
              obtain ⟨hx, q, -, le, eq'⟩ := ih.mp below
              exact ⟨hx, part :: q, by simp, by simpa using le, by simp [eq', eq]⟩
        · obtain ⟨hx, -, part, eq⟩ := mem_inside.mp file
          exact ⟨hx, [part], by simp, by simp, eq⟩
      · intro ⟨hx, q, ne, le, eq⟩
        cases q with
        | nil => exact absurd rfl ne
        | cons part q =>
            -- With more parts to come, what stands under the first part is a sub-directory.
            by_cases last : q = []
            · subst last
              cases kind : x.1.kind with
              | directory =>
                  exact .inl ⟨x, mem_inside.mpr ⟨hx, kind, part, eq⟩, List.mem_cons_self ..⟩
              | file => exact .inr (mem_inside.mpr ⟨hx, kind, part, eq⟩)
            · have eq' : x.1.path = path ++ [part] ++ q := by simp [eq]
              have mem : (⟨path ++ [part] ++ q, x.1.kind⟩ : Place) ∈ root :: settled :=
                eq' ▸ mem_of_mem_numbered hx
              obtain ⟨n, hn⟩ := exists_mem_numbered (h.prefix_mem mem last)
              refine .inl ⟨_, mem_inside.mpr ⟨hn, rfl, part, rfl⟩, List.mem_cons_of_mem _ ?_⟩
              exact ih.mpr ⟨hx, q, last, by simpa using le, eq'⟩

/-- Two places directly inside one path have nothing below both. -/
theorem eq_of_prefixes {path q : List (List Char)} {kind kind' : EntryKind} {x y : Place × Ino}
    (hx : x ∈ inside settled path kind) (hy : y ∈ inside settled path kind')
    (below_x : x.1.path <+: q) (below_y : y.1.path <+: q) : x = y := by
  obtain ⟨hx, -, part, eq⟩ := mem_inside.mp hx
  obtain ⟨hy, -, part', eq'⟩ := mem_inside.mp hy
  have le : x.1.path.length ≤ y.1.path.length := by simp [eq, eq']
  have start := List.prefix_of_prefix_length_le below_x below_y le
  have same := start.eq_of_length (by simp [eq, eq'])
  obtain ⟨place, number⟩ := h.unique hx hy same
  exact Prod.ext place number

theorem prefix_of_mem_tour {levels : Nat} {x y : Place × Ino}
    (mem : x ∈ y :: tour settled levels y.1.path) : y.1.path <+: x.1.path := by
  cases List.mem_cons.mp mem with
  | inl same => rw [same]
  | inr below =>
      obtain ⟨-, q, -, -, eq⟩ := h.mem_tour.mp below
      exact ⟨q, eq.symm⟩

theorem nodup_tour (levels : Nat) (path : List (List Char)) :
    (tour settled levels path).Nodup := by
  induction levels generalizing path with
  | zero => exact .nil
  | succ levels ih =>
      rw [tour, List.nodup_append, List.nodup_flatMap]
      refine ⟨⟨?_, ?_⟩, nodup_inside settled path .file, ?_⟩
      -- No sub-directory is below itself, no two share what is below, and no file is below one.
      · intro y _
        refine List.nodup_cons.mpr ⟨fun mem => ?_, ih y.1.path⟩
        obtain ⟨-, q, ne, -, eq⟩ := h.mem_tour.mp mem
        exact ne (by simpa using eq)
      · refine (nodup_inside settled path .directory).pairwise_of_forall_ne ?_
        intro y hy y' hy' ne x hx hx'
        exact ne (h.eq_of_prefixes hy hy' (h.prefix_of_mem_tour hx) (h.prefix_of_mem_tour hx'))
      · intro x hx y hy same
        obtain ⟨z, hz, mem⟩ := List.mem_flatMap.mp hx
        subst same
        obtain rfl := h.eq_of_prefixes hz hy (h.prefix_of_mem_tour mem) List.prefix_rfl
        have directory := (mem_inside.mp hz).2.1
        rw [(mem_inside.mp hy).2.1] at directory
        cases directory

theorem mem_tail_numbered {x : Place × Ino} :
    x ∈ (numbered settled).tail ↔ x ∈ numbered settled ∧ x.1.path ≠ [] := by
  have all : numbered settled = (root, rootIno) :: settled.zipIdx (rootIno + 1) := rfl
  rw [all, List.tail_cons, List.mem_cons]
  constructor
  · intro mem
    obtain ⟨p, part, eq, -⟩ := h.rooted x.1 (List.fst_mem_of_mem_zipIdx mem)
    exact ⟨.inr mem, by simp [eq]⟩
  · intro ⟨mem, ne⟩
    refine mem.resolve_left fun same => ne ?_
    rw [same, root]

theorem tour_perm {levels : Nat} (deep : ∀ x ∈ settled, x.path.length ≤ levels) :
    (tour settled levels []).Perm (numbered settled).tail := by
  refine (List.perm_ext_iff_of_nodup (h.nodup_tour levels []) (nodup_numbered settled).tail).mpr ?_
  intro x
  rw [h.mem_tour, h.mem_tail_numbered]
  constructor
  · intro ⟨mem, q, ne, _, eq⟩
    exact ⟨mem, by simpa [eq] using ne⟩
  · intro ⟨mem, ne⟩
    refine ⟨mem, x.1.path, ne, ?_, rfl⟩
    cases List.mem_cons.mp (mem_of_mem_numbered mem) with
    | inl same => simp [same, root]
    | inr mem => exact deep x.1 mem

end Catalogue.Represents

end SaveContainer
