import Mathlib.Data.List.Chain
import Mathlib.Logic.Relation
import SaveContainer.Entry

/-!
Trees of names, how they are printed, and the containers they are read from. Directories may be
shared or lie on a cycle; what a directory unfolds to is a tree all the same, or nothing. Main
statements: a directory unfolds to one tree at most, nothing on a cycle unfolds, and a tree is as
high as the longest chain of sub-directories below its root.
-/

namespace SaveContainer

/-- What a directory holds: its sub-directories in order, each with what it holds in turn, and
then its files. `rest` is the same directory without its first sub-directory. -/
inductive Tree where
  | files (names : List ShortName)
  | directory (name : ShortName) (inside rest : Tree)
  deriving DecidableEq

namespace Tree

/-- The line of one entry, `level` levels below the top. -/
def line (level : Nat) (sign : Char) (name : ShortName) : List Char :=
  List.replicate level ' ' ++ sign :: Utf8.lossy name.toBytes ++ ['\n']

/-- All lines in preorder, of a directory that stands at `level`. -/
def render (level : Nat) : Tree → List Char
  | files names => names.flatMap (line level '-')
  | directory name inside rest =>
    line level '+' name ++ inside.render (level + 1) ++ rest.render level

/-- How many directories lie one in another. -/
def height : Tree → Nat
  | files _ => 0
  | directory _ inside rest => max (inside.height + 1) rest.height

end Tree

/-- What the directories of a container show, their numbers apart: the names of the
sub-directories, each with the directory that opens under it, and the names of the files. There
is nothing for a directory that cannot be listed. -/
structure View (K : Type) where
  directories : K → Option (List (ShortName × K))
  files : K → Option (List ShortName)

namespace View

variable {K : Type} (v : View K)

/-- The names of one list of a directory. -/
def names (k : K) : EntryKind → Option (List ShortName)
  | .directory => (v.directories k).map (List.map Prod.fst)
  | .file => v.files k

/-- The step from a directory to one that is opened in it. -/
def Child (a b : K) : Prop :=
  ∃ subs, v.directories a = some subs ∧ b ∈ subs.map Prod.snd

/-- The tree of a directory with these sub-directories and these files. -/
inductive Holds : List (ShortName × K) → List ShortName → Tree → Prop
  | files (names : List ShortName) : Holds [] names (.files names)
  | directory {name : ShortName} {k : K} {subs rest : List (ShortName × K)}
      {files names : List ShortName} {inside more : Tree} :
      v.directories k = some subs → v.files k = some files → Holds subs files inside →
      Holds rest names more → Holds ((name, k) :: rest) names (.directory name inside more)

/-- The tree that a directory unfolds to. -/
def Unfolds (k : K) (t : Tree) : Prop :=
  ∃ subs files, v.directories k = some subs ∧ v.files k = some files ∧ v.Holds subs files t

variable {v}

theorem Holds.unique {subs : List (ShortName × K)} {files : List ShortName} {t u : Tree}
    (ht : v.Holds subs files t) (hu : v.Holds subs files u) : t = u := by
  induction ht generalizing u with
  | files names => cases hu; rfl
  | directory hsubs hfiles _ _ ihInside ihMore =>
      cases hu with
      | directory hsubs' hfiles' inside' more' =>
          cases hsubs.symm.trans hsubs'
          cases hfiles.symm.trans hfiles'
          rw [ihInside inside', ihMore more']

theorem Unfolds.unique {k : K} {t u : Tree} (ht : v.Unfolds k t) (hu : v.Unfolds k u) :
    t = u := by
  obtain ⟨subs, files, hsubs, hfiles, ht⟩ := ht
  obtain ⟨subs', files', hsubs', hfiles', hu⟩ := hu
  cases hsubs.symm.trans hsubs'
  cases hfiles.symm.trans hfiles'
  exact ht.unique hu

theorem Holds.inside {subs : List (ShortName × K)} {files : List ShortName} {t : Tree}
    (h : v.Holds subs files t) {k : K} (hk : k ∈ subs.map Prod.snd) :
    ∃ u, v.Unfolds k u ∧ u.height < t.height := by
  induction h with
  | files _ => simp at hk
  | directory hsubs hfiles inside _ _ ihMore =>
      cases List.mem_cons.mp hk with
      | inl eq =>
          subst eq
          exact ⟨_, ⟨_, _, hsubs, hfiles, inside⟩, by simp only [Tree.height]; omega⟩
      | inr hk =>
          obtain ⟨u, hu, lt⟩ := ihMore hk
          exact ⟨u, hu, by simp only [Tree.height]; omega⟩

theorem Unfolds.child {a b : K} {t : Tree} (h : v.Unfolds a t) (step : v.Child a b) :
    ∃ u, v.Unfolds b u ∧ u.height < t.height := by
  obtain ⟨subs, files, hsubs, -, holds⟩ := h
  obtain ⟨subs', hsubs', mem⟩ := step
  cases hsubs.symm.trans hsubs'
  exact holds.inside mem

theorem Unfolds.below {a b : K} {t : Tree} (h : v.Unfolds a t)
    (steps : Relation.TransGen v.Child a b) : ∃ u, v.Unfolds b u ∧ u.height < t.height := by
  induction steps with
  | single step => exact h.child step
  | tail _ step ih =>
      obtain ⟨u, hu, lt⟩ := ih
      obtain ⟨w, hw, lt'⟩ := hu.child step
      exact ⟨w, hw, Nat.lt_trans lt' lt⟩

/-- A directory that leads to a cycle unfolds to no finite tree. -/
theorem Unfolds.acyclic {a b : K} {t : Tree} (h : v.Unfolds a t)
    (reach : Relation.ReflTransGen v.Child a b) : ¬ Relation.TransGen v.Child b b := by
  intro cycle
  obtain ⟨u, hu⟩ : ∃ u, v.Unfolds b u := by
    cases Relation.reflTransGen_iff_eq_or_transGen.mp reach with
    | inl eq =>
        subst eq
        exact ⟨t, h⟩
    | inr steps =>
        obtain ⟨u, hu, -⟩ := h.below steps
        exact ⟨u, hu⟩
  obtain ⟨w, hw, lt⟩ := hu.below cycle
  rw [hw.unique hu] at lt
  exact Nat.lt_irrefl _ lt

theorem Unfolds.chain_length_le {a : K} {t : Tree} (h : v.Unfolds a t) {chain : List K}
    (steps : (a :: chain).IsChain v.Child) : chain.length ≤ t.height := by
  induction chain generalizing a t with
  | nil => exact Nat.zero_le _
  | cons b chain ih =>
      obtain ⟨step, steps⟩ := List.isChain_cons_cons.mp steps
      obtain ⟨u, hu, lt⟩ := h.child step
      exact Nat.lt_of_le_of_lt (ih hu steps) lt

theorem holds_of_forall_unfolds {subs : List (ShortName × K)} (files : List ShortName) {n : Nat}
    (h : ∀ k ∈ subs.map Prod.snd, ∃ u, v.Unfolds k u ∧ u.height < n) :
    ∃ t, v.Holds subs files t ∧ t.height ≤ n := by
  induction subs with
  | nil => exact ⟨_, .files files, Nat.zero_le _⟩
  | cons sub rest ih =>
      obtain ⟨inside, ⟨_, _, hsubs, hfiles, holds⟩, lt⟩ := h sub.2 (List.mem_cons_self ..)
      obtain ⟨more, hmore, le⟩ := ih fun k hk => h k (List.mem_cons_of_mem _ hk)
      exact ⟨_, .directory hsubs hfiles holds hmore, by simp only [Tree.height]; omega⟩

/-- Where every directory can be listed, only the length of chains keeps one from unfolding. -/
theorem exists_unfolds_iff_chains (total : ∀ k, (v.directories k).isSome ∧ (v.files k).isSome)
    (a : K) (n : Nat) :
    (∃ t, v.Unfolds a t ∧ t.height ≤ n) ↔
      ∀ chain, (a :: chain).IsChain v.Child → chain.length ≤ n := by
  constructor
  · intro ⟨t, ht, le⟩ chain steps
    exact Nat.le_trans (ht.chain_length_le steps) le
  · intro short
    induction n using Nat.strongRecOn generalizing a with
    | ind n ih =>
        obtain ⟨subs, hsubs⟩ := Option.isSome_iff_exists.mp (total a).1
        obtain ⟨files, hfiles⟩ := Option.isSome_iff_exists.mp (total a).2
        have inside : ∀ k ∈ subs.map Prod.snd, ∃ u, v.Unfolds k u ∧ u.height < n := by
          intro k hk
          have step : v.Child a k := ⟨subs, hsubs, hk⟩
          have pos : 1 ≤ n := short [k] (by simpa using step)
          obtain ⟨u, hu, le⟩ := ih (n - 1) (by omega) k fun chain steps => by
            have := short (k :: chain) (List.isChain_cons_cons.mpr ⟨step, steps⟩)
            simp only [List.length_cons] at this
            omega
          exact ⟨u, hu, by omega⟩
        obtain ⟨t, ht, le⟩ := holds_of_forall_unfolds files inside
        exact ⟨t, ⟨subs, files, hsubs, hfiles, ht⟩, le⟩

end View
end SaveContainer
