import Mathlib.Data.List.Infix
import Mathlib.Data.List.Nodup
import SaveContainer.Catalogue

/-!
The places that member names ask for, apart from any numbering. Places are settled one by one: one
that is settled already stays, a new one goes to the end, and one that contradicts a settled one is
refused. Main statements: members are taken up along their paths, which are their names split at
the slashes; and a list of places can be settled exactly when each of them has a name and no two
contradict each other, and then what is settled is the list without repetitions.
-/

namespace SaveContainer

theorem pieces_eq_splitOn {α : Type} [DecidableEq α] (sep : α) (l : List α) :
    pieces sep l = l.splitOn sep := by
  rw [List.splitOn]
  induction l with
  | nil => rfl
  | cons a l ih =>
      rw [pieces, List.splitOnP_cons_eq_if_modifyHead, ih]
      by_cases h : a = sep
      · simp [h]
      · cases hl : l.splitOnP (· == sep) with
        | nil => exact absurd hl (List.splitOnP_ne_nil _ l)
        | cons p ps => simp [h]

namespace Catalogue

/-- The path of a member: its name split where slashes stand, less one slash at the end of a
directory's name. -/
def pathOf : String × EntryKind → List (List Char)
  | (name, .file) => name.toList.splitOn '/'
  | (name, .directory) => ((name.toList.dropSuffix? ['/']).getD name.toList).splitOn '/'

theorem pathOf_directory_concat (name : List Char) :
    pathOf (String.ofList (name ++ ['/']), .directory) = name.splitOn '/' := by
  have less : (name ++ ['/']).dropSuffix? ['/'] = some name :=
    List.dropSuffix?_eq_some_iff.mpr ⟨['/'], rfl, BEq.rfl⟩
  rw [pathOf, String.toList_ofList, less, Option.getD_some]

theorem pathOf_directory_of_ne {name : String} (ends : name.toList.getLast? ≠ some '/') :
    pathOf (name, .directory) = name.toList.splitOn '/' := by
  have same : name.toList.dropSuffix? ['/'] = none := by
    refine Option.eq_none_iff_forall_ne_some.mpr fun front less => ?_
    obtain ⟨slash, eq, is_slash⟩ := List.dropSuffix?_eq_some_iff.mp less
    obtain rfl := eq_of_beq is_slash
    exact ends (by rw [eq, List.getLast?_concat])
  rw [pathOf, same, Option.getD_none]

/-- Members are taken up along their paths. -/
theorem memberPath_eq_pathOf (m : String × EntryKind) : memberPath m.1 m.2 = pathOf m := by
  obtain ⟨name, kind⟩ := m
  rw [memberPath, pieces_eq_splitOn]
  cases kind with
  | file => simp [pathOf]
  | directory =>
      by_cases ends : name.toList.getLast? = some '/'
      · obtain ⟨front, eq⟩ := List.getLast?_eq_some_iff.mp ends
        rw [if_pos ⟨rfl, ends⟩, eq, List.dropLast_concat, ← pathOf_directory_concat, ← eq,
          String.ofList_toList]
      · rw [if_neg fun h => ends h.2, pathOf_directory_of_ne ends]

theorem pathOf_ne_nil (m : String × EntryKind) : pathOf m ≠ [] := by
  rw [← memberPath_eq_pathOf, memberPath, pieces_eq_splitOn, List.splitOn]
  exact List.splitOnP_ne_nil _ _

end Catalogue

/-- Whether a component can be the name of an entry. -/
def SoundPart (part : List Char) : Prop :=
  part ≠ [] ∧ part ≠ ['.'] ∧ part ≠ ['.', '.'] ∧
    (Utf8.encode part).length ≤ ShortName.capacity ∧ (0 : UInt8) ∉ Utf8.encode part

instance (part : List Char) : Decidable (SoundPart part) :=
  inferInstanceAs (Decidable (_ ∧ _))

/-- Something that stands at a path below the root. -/
structure Place where
  path : List (List Char)
  kind : EntryKind
  deriving DecidableEq

namespace Place

def root : Place := ⟨[], .directory⟩

def Sound (x : Place) : Prop :=
  ∀ part ∈ x.path.getLast?, SoundPart part

/-- Only directories can be asked for twice. -/
def Agrees (x y : Place) : Prop :=
  x.path = y.path → x.kind = .directory ∧ y.kind = .directory

instance (x : Place) : Decidable x.Sound :=
  inferInstanceAs (Decidable (∀ part ∈ x.path.getLast?, SoundPart part))

instance (x y : Place) : Decidable (x.Agrees y) :=
  inferInstanceAs (Decidable (_ → _))

theorem Agrees.eq {x y : Place} (h : x.Agrees y) (eq : x.path = y.path) : x = y := by
  obtain ⟨hx, hy⟩ := h eq
  cases x
  cases y
  simp_all

/-- One more place among those that are settled. -/
def settle? (settled : List Place) (x : Place) : Option (List Place) :=
  if x.Sound ∧ ∀ y ∈ settled, y.Agrees x then
    some (if x ∈ settled then settled else settled ++ [x])
  else none

theorem settle?_eq_some_iff {settled settled' : List Place} {x : Place} :
    settle? settled x = some settled' ↔ x.Sound ∧ (∀ y ∈ settled, y.Agrees x) ∧
      settled' = if x ∈ settled then settled else settled ++ [x] := by
  unfold settle?
  split
  · next h => simp [h.1, eq_comm, and_iff_right h.2]
  · next h => simp [← and_assoc, h]

section Settle

variable {settled : List Place} {x y : Place}

theorem settle?_of_fresh (sound : x.Sound) (fresh : ∀ y ∈ settled, y.path ≠ x.path) :
    settle? settled x = some (settled ++ [x]) := by
  have new : x ∉ settled := fun mem => fresh x mem rfl
  rw [settle?_eq_some_iff, if_neg new]
  exact ⟨sound, fun y mem eq => absurd eq (fresh y mem), rfl⟩

theorem settle?_of_mem (sound : x.Sound) (directory : x.kind = .directory)
    (distinct : (settled.map path).Nodup) (mem : x ∈ settled) :
    settle? settled x = some settled := by
  rw [settle?_eq_some_iff, if_pos mem]
  refine ⟨sound, ?_, rfl⟩
  intro y hy eq
  obtain rfl := List.inj_on_of_nodup_map distinct hy mem eq
  exact ⟨directory, directory⟩

theorem settle?_of_conflict (mem : y ∈ settled) (eq : y.path = x.path)
    (file : y.kind = .file ∨ x.kind = .file) : settle? settled x = none := by
  rw [settle?, if_neg]
  intro ⟨_, agree⟩
  obtain ⟨hy, hx⟩ := agree y mem eq
  simp [hy, hx] at file

theorem settle?_of_unsound (unsound : ¬ x.Sound) : settle? settled x = none :=
  if_neg fun h => unsound h.1

end Settle

theorem eraseDups_concat {α : Type} [BEq α] [LawfulBEq α] (xs : List α) (x : α)
    [Decidable (x ∈ xs)] :
    (xs ++ [x]).eraseDups = if x ∈ xs then xs.eraseDups else xs.eraseDups ++ [x] := by
  rw [List.eraseDups_append]
  by_cases h : x ∈ xs
  · simp [List.removeAll, h]
  · simp [List.removeAll, h, List.eraseDups_cons]

theorem settleAll_concat_eq_some_iff (wanted settled : List Place) (x : Place) :
    (wanted ++ [x]).foldlM settle? [] = some settled ↔
      ∃ before, wanted.foldlM settle? [] = some before ∧ settle? before x = some settled := by
  rw [List.foldlM_append, Option.bind_eq_bind, Option.bind_eq_some_iff]
  simp

theorem settleAll_eq_some_iff (wanted settled : List Place) :
    wanted.foldlM settle? [] = some settled ↔
      (∀ x ∈ wanted, x.Sound) ∧ wanted.Pairwise Agrees ∧ settled = wanted.eraseDups := by
  induction wanted using List.reverseRecOn generalizing settled with
  | nil => simp [eq_comm]
  | append_singleton wanted x ih =>
      rw [settleAll_concat_eq_some_iff, eraseDups_concat]
      simp only [ih, settle?_eq_some_iff, List.forall_mem_append, List.forall_mem_singleton,
        List.pairwise_append]
      constructor
      · intro ⟨_, ⟨sound, agree, all⟩, hx, with_x, last⟩
        subst all last
        simp only [List.mem_eraseDups] at with_x ⊢
        exact ⟨⟨sound, hx⟩, ⟨agree, List.pairwise_singleton Agrees x, with_x⟩, trivial⟩
      · intro ⟨⟨sound, hx⟩, ⟨agree, _, with_x⟩, all⟩
        subst all
        refine ⟨_, ⟨sound, agree, rfl⟩, hx, ?_, ?_⟩
        · simpa only [List.mem_eraseDups] using with_x
        · simp only [List.mem_eraseDups]

/-- Places that agree are told apart by their paths. -/
theorem map_path_eraseDups {wanted : List Place} (agree : wanted.Pairwise Agrees) :
    wanted.eraseDups.map path = (wanted.map path).eraseDups := by
  induction wanted using List.reverseRecOn with
  | nil => rfl
  | append_singleton wanted x ih =>
      rw [List.pairwise_append] at agree
      have same : x ∈ wanted ↔ x.path ∈ wanted.map path := by
        constructor
        · exact List.mem_map_of_mem
        · intro h
          obtain ⟨y, hy, eq⟩ := List.mem_map.mp h
          exact (agree.2.2 y hy x (List.mem_singleton_self x)).eq eq ▸ hy
      rw [eraseDups_concat, List.map_append, List.map_singleton, eraseDups_concat]
      by_cases h : x ∈ wanted
      · rw [if_pos h, if_pos (same.mp h), ih agree.1]
      · rw [if_neg h, if_neg (mt same.mpr h), List.map_append, List.map_singleton, ih agree.1]

/-- The places on a way that starts at `path`; only the last of them can be a file. -/
def below (kind : EntryKind) (path : List (List Char)) : List (List Char) → List Place
  | [] => []
  | part :: rest =>
    ⟨path ++ [part], if rest = [] then kind else .directory⟩ :: below kind (path ++ [part]) rest

theorem mem_below {kind : EntryKind} {path parts : List (List Char)} {x : Place} :
    x ∈ below kind path parts ↔
      ∃ q, q ≠ [] ∧ q <+: parts ∧ x = ⟨path ++ q, if q = parts then kind else .directory⟩ := by
  induction parts generalizing path with
  | nil => simp [below]
  | cons part rest ih =>
      simp only [below, List.mem_cons, ih]
      constructor
      · rintro (rfl | ⟨q, hq, start, rfl⟩)
        · exact ⟨[part], by simp, by simp, by simp [eq_comm]⟩
        · exact ⟨part :: q, by simp, by simpa using start, by simp⟩
      · rintro ⟨_ | ⟨a, q⟩, hq, start, rfl⟩
        · exact absurd rfl hq
        · obtain ⟨rfl, start'⟩ := List.cons_prefix_cons.mp start
          rcases q with _ | ⟨b, q⟩
          · exact .inl (by simp [eq_comm])
          · exact .inr ⟨b :: q, by simp, start', by simp⟩

theorem map_path_below (kind : EntryKind) (path parts : List (List Char)) :
    (below kind path parts).map Place.path = parts.inits.tail.map (path ++ ·) := by
  induction parts generalizing path with
  | nil => rfl
  | cons part rest ih =>
      have first : rest.inits = [] :: rest.inits.tail := by cases rest <;> simp
      rw [List.inits_cons, List.tail_cons, below, List.map_cons, ih]
      conv_rhs => rw [first]
      simp only [List.map_cons, List.map_map, Function.comp_def, List.append_assoc,
        List.singleton_append]

/-- The places on one way have different lengths. -/
theorem pairwise_below (kind : EntryKind) (path parts : List (List Char)) :
    (below kind path parts).Pairwise Agrees := by
  induction parts generalizing path with
  | nil => exact .nil
  | cons part rest ih =>
      refine .cons ?_ (ih (path ++ [part]))
      intro x hx eq
      obtain ⟨q, hq, -, rfl⟩ := mem_below.mp hx
      simp at eq
      exact absurd eq hq

/-- The places that a member asks for. -/
def wanted (m : String × EntryKind) : List Place :=
  below m.2 [] (Catalogue.pathOf m)

theorem mem_wanted {m : String × EntryKind} {x : Place} :
    x ∈ wanted m ↔ x.path ≠ [] ∧ x.path <+: Catalogue.pathOf m ∧
      x.kind = if x.path = Catalogue.pathOf m then m.2 else .directory := by
  rw [wanted, mem_below]
  constructor
  · intro ⟨q, ne, start, eq⟩
    subst eq
    exact ⟨ne, start, rfl⟩
  · intro ⟨ne, start, kind⟩
    exact ⟨x.path, ne, start, by cases x; simpa using kind⟩

/-- On the way to a member there are only directories. -/
theorem file_of_mem_wanted {m : String × EntryKind} {x : Place} (mem : x ∈ wanted m)
    (file : x.kind = .file) : x.path = Catalogue.pathOf m ∧ m.2 = .file := by
  obtain ⟨-, -, kind⟩ := mem_wanted.mp mem
  by_cases full : x.path = Catalogue.pathOf m
  · rw [if_pos full] at kind
    exact ⟨full, kind.symm.trans file⟩
  · rw [if_neg full, file] at kind
    cases kind

theorem exists_mem_wanted {m : String × EntryKind} {q : List (List Char)} (ne : q ≠ [])
    (start : q <+: Catalogue.pathOf m) : ∃ k, ⟨q, k⟩ ∈ wanted m :=
  ⟨if q = Catalogue.pathOf m then m.2 else .directory, mem_wanted.mpr ⟨ne, start, rfl⟩⟩

theorem self_mem_wanted (m : String × EntryKind) : ⟨Catalogue.pathOf m, m.2⟩ ∈ wanted m :=
  mem_wanted.mpr ⟨Catalogue.pathOf_ne_nil m, List.prefix_rfl, (if_pos rfl).symm⟩

end Place
end SaveContainer
