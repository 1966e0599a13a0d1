import SaveContainer.Disk.Lookup
import SaveContainer.Proofs.Places

/-!
Where the path of an entry leads. The name of an entry, hung below the path of a directory, leads
to what the directory has under this name: the links on the way are followed as they are for the
directory alone, and the entry is not followed, should it be one.
-/

namespace SaveContainer

namespace Path

/-- Names that entries of directories have. The two that mean the directory itself and the one
above are no names of entries. -/
structure IsName (name : FileName) : Prop where
  ne_nil : name ≠ []
  slash_notMem : slash ∉ name
  zero_notMem : (0 : UInt8) ∉ name
  ne_dot : name ≠ dot
  ne_dotDot : name ≠ dotDot
  length_le : name.length ≤ Disk.nameLimit

instance (name : FileName) : Decidable (IsName name) :=
  decidable_of_iff (name ≠ [] ∧ slash ∉ name ∧ (0 : UInt8) ∉ name ∧ name ≠ dot ∧ name ≠ dotDot ∧
      name.length ≤ Disk.nameLimit)
    ⟨fun ⟨h₁, h₂, h₃, h₄, h₅, h₆⟩ => ⟨h₁, h₂, h₃, h₄, h₅, h₆⟩,
      fun ⟨h₁, h₂, h₃, h₄, h₅, h₆⟩ => ⟨h₁, h₂, h₃, h₄, h₅, h₆⟩⟩

/-- The steps of a path without the dot that stands for a slash at its end. -/
def names (p : Path) : List FileName :=
  (pieces slash p.bytes).filter (· ≠ [])

variable {p q : Path} {name : FileName}

theorem steps_eq (p : Path) : p.steps = p.names ++ if p.endsInSlash then [dot] else [] := rfl

theorem pieces_append (l : List UInt8) {m : List UInt8} (h : slash ∉ m) :
    pieces slash (l ++ slash :: m) = pieces slash l ++ [m] := by
  rw [pieces_eq_splitOn, List.splitOn_append_cons_self, List.splitOn_eq_singleton h,
    pieces_eq_splitOn]

theorem isAbsolute_of_isName (h : IsName name) : isAbsolute ⟨name⟩ = false := by
  cases name with
  | nil => exact absurd rfl h.ne_nil
  | cons b name =>
      have ne : b ≠ slash := fun eq => h.slash_notMem (eq ▸ List.mem_cons_self ..)
      simp [isAbsolute, ne]

section Join

variable (nonempty : p.bytes ≠ [])
include nonempty

theorem join_ne_nil (q : Path) : (p.join q).bytes ≠ [] := by
  unfold join
  split
  · next absolute =>
      intro nil
      simp [isAbsolute, nil] at absolute
  · split <;> exact List.append_ne_nil_of_left_ne_nil nonempty _

theorem join_bytes (h : IsName name) :
    (p.join ⟨name⟩).bytes = p.bytes ++ (if p.endsInSlash then [] else [slash]) ++ name := by
  rw [join, isAbsolute_of_isName h, List.isEmpty_eq_false_iff.mpr nonempty]
  cases p.endsInSlash <;> simp

theorem isAbsolute_join (h : IsName name) : (p.join ⟨name⟩).isAbsolute = p.isAbsolute := by
  rw [isAbsolute, isAbsolute, join_bytes nonempty h, List.append_assoc,
    List.head?_append_of_ne_nil _ nonempty]

theorem names_join (h : IsName name) : (p.join ⟨name⟩).names = p.names ++ [name] := by
  rw [names, join_bytes nonempty h]
  cases ends : p.endsInSlash with
  | true =>
      obtain ⟨front, eq⟩ := List.getLast?_eq_some_iff.mp (beq_iff_eq.mp ends)
      simp [names, eq, pieces_append, h.slash_notMem, h.ne_nil]
  | false =>
      simp [names, pieces_append, h.slash_notMem, h.ne_nil]

theorem endsInSlash_join (h : IsName name) : (p.join ⟨name⟩).endsInSlash = false := by
  rw [endsInSlash, join_bytes nonempty h, List.getLast?_append_of_ne_nil _ h.ne_nil]
  rw [beq_eq_false_iff_ne]
  intro eq
  exact h.slash_notMem (List.mem_of_getLast? eq)

end Join

end Path

namespace Spot

/-- What passing one name comes to, if a link of this name is not followed. -/
def step (name : FileName) (s : Spot) : Except IoFault Spot :=
  Disk.passNames .itself (fun _ s => .ok s) [name] s

variable {name : FileName} {s t : Spot}

theorem step_eq_ok_iff (h : Path.IsName name) : s.step name = .ok t ↔
    ∃ es n, s.node = .directory es ∧ es.lookup name = some n ∧ t = s.enter name n := by
  cases hs : s.node with
  | directory es =>
      have short : ¬Disk.nameLimit < name.length := Nat.not_lt.mpr h.length_le
      simp only [step, Disk.passNames, hs, if_neg h.ne_dot, if_neg h.ne_dotDot, if_neg short,
        LookupMode.itself, Bool.false_and]
      cases hl : es.lookup name with
      | none => simp [hl]
      | some n => cases n <;> simp [hl, eq_comm]
  | _ => simp [step, Disk.passNames, hs]

/-- A dot asks for a directory and leads no further. -/
theorem step_dot_bind (name : FileName) (s : Spot) :
    (s.step Path.dot >>= step name) = s.step name := by
  cases hs : s.node with
  | directory es =>
      have stays : s.step Path.dot = .ok s := by simp only [step, Disk.passNames, hs, if_true]
      rw [stays]
      rfl
  | _ =>
      simp only [step, Disk.passNames, hs]
      rfl

theorem node_of_step_dot (h : s.step Path.dot = .ok t) : t = s ∧ t.node.isDirectory := by
  cases hs : s.node with
  | directory es =>
      simp only [step, Disk.passNames, hs, if_true] at h
      cases h
      exact ⟨rfl, by rw [hs]; rfl⟩
  | _ => simp only [step, Disk.passNames, hs] at h; cases h

end Spot

namespace Disk

/-- If links are followed at the end of a lookup, then it has not come to one. -/
def EndsRight (mode : LookupMode) (r : Except IoFault Spot) : Prop :=
  mode.follow = true → ∀ t target, r = .ok t → t.node ≠ .link target

variable {mode : LookupMode} {name : FileName}

theorem passNames_singleton (create : mode.create = false)
    (onLink : List FileName → Spot → Except IoFault Spot) (s : Spot)
    (ends : EndsRight mode (s.step name)) : passNames mode onLink [name] s = s.step name := by
  cases hs : s.node with
  | directory es =>
      simp only [Spot.step, passNames, hs, create, LookupMode.itself, List.isEmpty_nil,
        Bool.not_true, Bool.or_false, Bool.false_and] at ends ⊢
      by_cases dot : name = Path.dot
      · simp only [if_pos dot]
      by_cases up : name = Path.dotDot
      · simp only [if_neg dot, if_pos up]
      by_cases long : nameLimit < name.length
      · simp only [if_neg dot, if_neg up, if_pos long]
      simp only [if_neg dot, if_neg up, if_neg long] at ends ⊢
      cases hl : es.lookup name with
      | none => rfl
      | some n =>
          cases n with
          | link target =>
              cases follow : mode.follow with
              | false => rfl
              | true =>
                  simp only [hl] at ends
                  exact absurd rfl (ends follow _ target rfl)
          | _ => rfl
  | _ => simp only [Spot.step, passNames, hs]

theorem passNames_append (create : mode.create = false)
    {onLink onLink' : List FileName → Spot → Except IoFault Spot}
    (onLinks : ∀ names s, EndsRight mode (onLink names s >>= Spot.step name) →
      onLink' (names ++ [name]) s = onLink names s >>= Spot.step name)
    (names : List FileName) (s : Spot)
    (ends : EndsRight mode (passNames .through onLink names s >>= Spot.step name)) :
    passNames mode onLink' (names ++ [name]) s =
      passNames .through onLink names s >>= Spot.step name := by
  induction names generalizing s with
  | nil => exact passNames_singleton create onLink' s ends
  | cons first names ih =>
      rw [List.cons_append]
      cases hs : s.node with
      | directory es =>
          have continued : (names ++ [name]).isEmpty = false := by simp
          simp only [passNames, hs, create, LookupMode.through, continued, Bool.not_false,
            Bool.or_true, Bool.true_or, Bool.and_false, Bool.false_and, if_true] at ends ⊢
          by_cases dot : first = Path.dot
          · simp only [if_pos dot] at ends ⊢
            exact ih s ends
          by_cases up : first = Path.dotDot
          · simp only [if_neg dot, if_pos up] at ends ⊢
            exact ih s.up ends
          by_cases long : nameLimit < first.length
          · simp only [if_neg dot, if_neg up, if_pos long]
            rfl
          simp only [if_neg dot, if_neg up, if_neg long] at ends ⊢
          cases hl : es.lookup first with
          | none => rfl
          | some n =>
              simp only [hl] at ends
              cases n with
              | link target =>
                  -- The steps of the target come before the rest of the names.
                  dsimp only at ends ⊢
                  rw [← List.append_assoc]
                  exact onLinks _ _ ends
              | _ => exact ih _ ends
      | _ =>
          simp only [passNames, hs]
          rfl

theorem passLinks_append (create : mode.create = false) (links : Nat) (names : List FileName)
    (s : Spot) (ends : EndsRight mode (passLinks .through links names s >>= Spot.step name)) :
    passLinks mode links (names ++ [name]) s =
      passLinks .through links names s >>= Spot.step name := by
  induction links generalizing names s with
  | zero => exact passNames_append create (fun _ _ _ => rfl) names s ends
  | succ links ih => exact passNames_append create ih names s ends

theorem bind_eq_ok_iff {r : Except IoFault Spot} {f : Spot → Except IoFault Spot} {u : Spot} :
    (r >>= f) = .ok u ↔ ∃ t, r = .ok t ∧ f t = .ok u := by
  cases r with
  | error e => simp [bind, Except.bind]
  | ok t => simp [bind, Except.bind]

theorem endsRight_dot (mode : LookupMode) (r : Except IoFault Spot) :
    EndsRight mode (r >>= Spot.step Path.dot) := by
  intro _ u target step eq
  obtain ⟨t, -, step⟩ := bind_eq_ok_iff.mp step
  have directory := (Spot.node_of_step_dot step).2
  rw [eq] at directory
  cases directory

/-- The slash at the end of a path makes no difference to what is found below the path. -/
theorem passLinks_steps (p : Path) (links : Nat) (s : Spot) (name : FileName) :
    passLinks .through links p.steps s >>= Spot.step name =
      passLinks .through links p.names s >>= Spot.step name := by
  rw [Path.steps_eq]
  cases p.endsInSlash with
  | false => rw [if_neg Bool.false_ne_true, List.append_nil]
  | true =>
      rw [if_pos rfl, passLinks_append rfl links p.names s (endsRight_dot _ _)]
      cases passLinks .through links p.names s with
      | error e => rfl
      | ok t => exact Spot.step_dot_bind name t

theorem find_eq_ok_iff (d : Disk) (mode : LookupMode) (p : Path) (u : Spot) :
    d.find mode p = .ok u ↔ (0 : UInt8) ∉ p.bytes ∧ p.bytes ≠ [] ∧ p.bytes.length < pathLimit ∧
      ∃ s, d.start p.isAbsolute = .ok s ∧ passLinks mode linkLimit p.steps s = .ok u := by
  unfold find findNames
  split
  · next zero => simp [zero]
  · split
    · next empty => simp [empty]
    · split
      · next long => simp [Nat.not_lt.mpr long]
      · next zero empty long => simp [zero, empty, Nat.lt_of_not_le long, bind_eq_ok_iff]

theorem isDirectory_iff (d : Disk) (p : Path) :
    d.isDirectory p ↔ ∃ u, d.find .through p = .ok u ∧ u.node.isDirectory := by
  unfold isDirectory node holds
  cases d.find .through p <;> simp [Except.map]

theorem isRealDirectory_iff (d : Disk) (p : Path) :
    d.isRealDirectory p ↔ ∃ u, d.find .itself p = .ok u ∧ u.node.isDirectory := by
  unfold isRealDirectory ownNode holds
  cases d.find .itself p <;> simp [Except.map]

section Join

variable {d : Disk} {p : Path} (h : Path.IsName name) (nonempty : p.bytes ≠ [])
include h nonempty

theorem find_join (create : mode.create = false) {u : Spot}
    (ends : ∀ s, d.start p.isAbsolute = .ok s →
      EndsRight mode (passLinks .through linkLimit p.steps s >>= Spot.step name)) :
    d.find mode (p.join ⟨name⟩) = .ok u ↔ (p.join ⟨name⟩).bytes.length < pathLimit ∧
      ∃ t, d.find .through p = .ok t ∧ t.step name = .ok u := by
  have steps : (p.join ⟨name⟩).steps = p.names ++ [name] := by
    rw [Path.steps_eq, Path.names_join nonempty h, Path.endsInSlash_join nonempty h]
    exact List.append_nil _
  have zero : (0 : UInt8) ∈ (p.join ⟨name⟩).bytes ↔ (0 : UInt8) ∈ p.bytes := by
    have slash : (0 : UInt8) ∉ if p.endsInSlash then [] else [Path.slash] := by split <;> decide
    rw [Path.join_bytes nonempty h]
    simp only [List.mem_append, h.zero_notMem, slash, or_false]
  have longer : p.bytes.length ≤ (p.join ⟨name⟩).bytes.length := by
    rw [Path.join_bytes nonempty h, List.append_assoc, List.length_append]
    exact Nat.le_add_right _ _
  have passed (s : Spot) (start : d.start p.isAbsolute = .ok s) :
      passLinks mode linkLimit (p.names ++ [name]) s = .ok u ↔
        ∃ t, passLinks .through linkLimit p.steps s = .ok t ∧ t.step name = .ok u := by
    -- The slash at the end of `p` is gone from the longer path.
    have right := ends s start
    rw [passLinks_steps] at right
    rw [passLinks_append create linkLimit p.names s right, ← passLinks_steps, bind_eq_ok_iff]
  rw [find_eq_ok_iff, Path.isAbsolute_join nonempty h, steps, zero]
  constructor
  · intro ⟨zero, _, short, s, start, found⟩
    obtain ⟨t, found, step⟩ := (passed s start).mp found
    refine ⟨short, t, (find_eq_ok_iff ..).mpr ⟨zero, nonempty, ?_, s, start, found⟩, step⟩
    exact Nat.lt_of_le_of_lt longer short
  · intro ⟨short, t, found, step⟩
    obtain ⟨zero, _, _, s, start, found⟩ := (find_eq_ok_iff ..).mp found
    exact ⟨zero, Path.join_ne_nil nonempty _, short, s, start, (passed s start).mpr ⟨t, found, step⟩⟩

theorem find_itself_join {u : Spot} :
    d.find .itself (p.join ⟨name⟩) = .ok u ↔ (p.join ⟨name⟩).bytes.length < pathLimit ∧
      ∃ t, d.find .through p = .ok t ∧ t.step name = .ok u :=
  find_join h nonempty rfl fun _ _ => nofun

theorem find_through_join {t u : Spot} (short : (p.join ⟨name⟩).bytes.length < pathLimit)
    (found : d.find .through p = .ok t) (step : t.step name = .ok u)
    (directory : u.node.isDirectory) : d.find .through (p.join ⟨name⟩) = .ok u := by
  refine (find_join h nonempty rfl ?_).mpr ⟨short, t, found, step⟩
  obtain ⟨_, _, _, s, start, found⟩ := (find_eq_ok_iff ..).mp found
  intro s' start' _ u' target step' eq
  cases start.symm.trans start'
  rw [found] at step'
  cases step.symm.trans step'
  rw [eq] at directory
  cases directory

/-- The path of an entry leads to a directory that is no link exactly if the entry is one. -/
theorem isRealDirectory_join : d.isRealDirectory (p.join ⟨name⟩) ↔
    (p.join ⟨name⟩).bytes.length < pathLimit ∧ ∃ s es sub, d.find .through p = .ok s ∧
      s.node = .directory es ∧ es.lookup name = some (.directory sub) := by
  simp only [isRealDirectory_iff, find_itself_join h nonempty, Spot.step_eq_ok_iff h]
  constructor
  · intro ⟨u, ⟨short, s, found, es, n, node, entry, eq⟩, directory⟩
    subst eq
    cases n with
    | directory sub => exact ⟨short, s, es, sub, found, node, entry⟩
    | _ => cases directory
  · intro ⟨short, s, es, sub, found, node, entry⟩
    exact ⟨s.enter name (.directory sub), ⟨short, s, found, es, _, node, entry, rfl⟩, rfl⟩

end Join

/-- A lookup that does not follow a link at its end comes to the link or to the same. -/
def SameOrLink (own through : Except IoFault Spot) : Prop :=
  own = through ∨ ∃ s target, own = .ok s ∧ s.node = .link target

theorem passNames_sameOrLink {onLink onLink' : List FileName → Spot → Except IoFault Spot}
    (onLinks : ∀ names s, SameOrLink (onLink names s) (onLink' names s)) (names : List FileName)
    (s : Spot) :
    SameOrLink (passNames .itself onLink names s) (passNames .through onLink' names s) := by
  induction names generalizing s with
  | nil => exact .inl rfl
  | cons first names ih =>
      cases hs : s.node with
      | directory es =>
          simp only [passNames, hs, LookupMode.itself, LookupMode.through, Bool.false_and,
            Bool.false_or, Bool.true_or, if_true]
          by_cases dot : first = Path.dot
          · simp only [if_pos dot]
            exact ih s
          by_cases up : first = Path.dotDot
          · simp only [if_neg dot, if_pos up]
            exact ih s.up
          by_cases long : nameLimit < first.length
          · simp only [if_neg dot, if_neg up, if_pos long]
            exact .inl rfl
          simp only [if_neg dot, if_neg up, if_neg long]
          cases hl : es.lookup first with
          | none => exact .inl rfl
          | some n =>
              cases n with
              | link target =>
                  cases names with
                  | nil => exact .inr ⟨s.enter first (.link target), target, rfl, rfl⟩
                  | cons second names => exact onLinks _ _
              | _ => exact ih _
      | _ =>
          simp only [passNames, hs]
          exact .inl rfl

theorem passLinks_sameOrLink (links : Nat) (names : List FileName) (s : Spot) :
    SameOrLink (passLinks .itself links names s) (passLinks .through links names s) := by
  induction links generalizing names s with
  | zero => exact passNames_sameOrLink (fun _ _ => .inl rfl) names s
  | succ links ih => exact passNames_sameOrLink ih names s

theorem find_sameOrLink (d : Disk) (p : Path) :
    SameOrLink (d.find .itself p) (d.find .through p) := by
  by_cases zero : (0 : UInt8) ∈ p.bytes
  · simp only [find, if_pos zero]
    exact .inl rfl
  by_cases empty : p.bytes = []
  · simp only [find, if_neg zero, if_pos empty]
    exact .inl rfl
  by_cases long : pathLimit ≤ p.bytes.length
  · simp only [find, if_neg zero, if_neg empty, if_pos long]
    exact .inl rfl
  simp only [find, if_neg zero, if_neg empty, if_neg long, findNames]
  cases d.start p.isAbsolute with
  | error e =>
      change SameOrLink (.error e) (.error e)
      exact .inl rfl
  | ok s => exact passLinks_sameOrLink linkLimit p.steps s

/-- Following a link at the end makes up for not having followed it before. -/
theorem SameOrLink.node_eq {own through : Except IoFault Spot} (h : SameOrLink own through) :
    (match own.map Spot.node with
      | .ok (.link _) => through.map Spot.node
      | other => other) = through.map Spot.node := by
  rcases h with rfl | ⟨s, target, rfl, atLink⟩
  · cases own with
    | error e => rfl
    | ok s => cases at_s : s.node <;> simp only [Except.map, at_s]
  · simp only [Except.map, atLink]

/-- The entries of a directory in the order in which they are listed. -/
def sorted (es : List (FileName × Node)) : List (FileName × Node) :=
  es.mergeSort fun a b => (compare a.1 b.1).isLE

/-- The listing of a path that leads to this. -/
def listed (p : Path) : Except IoFault Node → Except IoFault (List (FileName × Node))
  | .ok n => .ok (sorted n.entries)
  | .error cause => .error (.listing p cause)

theorem listing_eq (d : Disk) (p : Path) : d.listing p = listed p (d.node p) :=
  congrArg (listed p) (d.find_sameOrLink p).node_eq

theorem listing_eq_ok_iff {d : Disk} {p : Path} {es : List (FileName × Node)} :
    d.listing p = .ok es ↔ ∃ n, d.node p = .ok n ∧ es = sorted n.entries := by
  rw [listing_eq]
  cases d.node p with
  | error e => simp [listed]
  | ok n => simp [listed, eq_comm]

end Disk

/-- All entries below have names. -/
inductive Node.Named : Node → Prop
  | file (data : ByteArray) : Named (.file data)
  | link (target : Path) : Named (.link target)
  | device : Named .device
  | directory {es : List (FileName × Node)} : (∀ e ∈ es, Path.IsName e.1) →
      (∀ e ∈ es, Named e.2) → Named (.directory es)

theorem Node.Named.nil : Named (.directory []) :=
  .directory (List.forall_mem_nil _) (List.forall_mem_nil _)

theorem Node.Named.cons {name : FileName} {n : Node} {es : List (FileName × Node)}
    (isName : Path.IsName name) (named : n.Named) (rest : Named (.directory es)) :
    Named (.directory ((name, n) :: es)) := by
  cases rest with
  | directory names inside =>
      exact .directory (List.forall_mem_cons.mpr ⟨isName, names⟩)
        (List.forall_mem_cons.mpr ⟨named, inside⟩)

/-- No two entries of one directory have the same name, and all have names, at any depth. -/
inductive Node.WellFormed : Node → Prop
  | file (data : ByteArray) : WellFormed (.file data)
  | link (target : Path) : WellFormed (.link target)
  | device : WellFormed .device
  | directory {es : List (FileName × Node)} : (∀ e ∈ es, Path.IsName e.1) →
      (es.map Prod.fst).Nodup → (∀ e ∈ es, WellFormed e.2) → WellFormed (.directory es)

theorem Node.WellFormed.named {n : Node} (h : n.WellFormed) : n.Named := by
  induction h with
  | file data => exact .file data
  | link target => exact .link target
  | device => exact .device
  | directory names _ _ ih => exact .directory names ih

theorem Node.WellFormed.distinct {es : List (FileName × Node)}
    (h : (Node.directory es).WellFormed) : (es.map Prod.fst).Nodup := by
  cases h with
  | directory _ distinct _ => exact distinct

/-- What holds of a node holds of its entries, too, and of a file that is about to be made. -/
structure Node.Hereditary (P : Node → Prop) : Prop where
  new : P (.file .empty)
  inside : ∀ es, P (.directory es) → ∀ e ∈ es, P e.2

theorem Node.hereditary_named : Hereditary Named where
  new := .file _
  inside es h := by
    cases h with
    | directory _ inside => exact inside

theorem Node.hereditary_wellFormed : Hereditary WellFormed where
  new := .file _
  inside es h := by
    cases h with
    | directory _ _ inside => exact inside

/-- Everything that a lookup has passed is so. -/
def Spot.All (P : Node → Prop) (s : Spot) : Prop :=
  P s.top ∧ ∀ e ∈ s.trail, P e.2

namespace Spot.All

variable {P : Node → Prop} {s : Spot} (h : s.All P)
include h

theorem node : P s.node := by
  unfold Spot.node
  split
  · exact h.1
  · next name n rest eq => exact h.2 (name, n) (eq ▸ List.mem_cons_self ..)

theorem enter {n : Node} (hn : P n) (name : FileName) : (s.enter name n).All P := by
  refine ⟨h.1, fun e he => ?_⟩
  rcases List.mem_cons.mp he with rfl | he
  · exact hn
  · exact h.2 e he

theorem up : s.up.All P :=
  ⟨h.1, fun e he => h.2 e (List.mem_of_mem_tail he)⟩

theorem toTop : s.toTop.All P :=
  ⟨h.1, nofun⟩

end Spot.All

namespace Disk

theorem mem_of_lookup {es : List (FileName × Node)} {name : FileName} {n : Node}
    (entry : es.lookup name = some n) : (name, n) ∈ es := by
  obtain ⟨front, rest, rfl, -⟩ := List.lookup_eq_some_iff.mp entry
  exact List.mem_append_right front (List.mem_cons_self ..)

theorem exists_of_node {d : Disk} {p : Path} {n : Node} (h : d.node p = .ok n) :
    ∃ s, d.find .through p = .ok s ∧ s.node = n := by
  unfold node at h
  cases found : d.find .through p with
  | error cause => simp [found, Except.map] at h
  | ok s => exact ⟨s, rfl, by simpa [found, Except.map] using h⟩

theorem exists_of_ownNode {d : Disk} {p : Path} {n : Node} (h : d.ownNode p = .ok n) :
    ∃ s, d.find .itself p = .ok s ∧ s.node = n := by
  unfold ownNode at h
  cases found : d.find .itself p with
  | error cause => simp [found, Except.map] at h
  | ok s => exact ⟨s, rfl, by simpa [found, Except.map] using h⟩

section Hereditary

variable {P : Node → Prop} (hereditary : Node.Hereditary P)
  {onLink : List FileName → Spot → Except IoFault Spot}
include hereditary

theorem all_of_passNames (onLinks : ∀ names s t, s.All P → onLink names s = .ok t → t.All P)
    (names : List FileName) {s t : Spot} (all : s.All P)
    (passed : passNames mode onLink names s = .ok t) : t.All P := by
  induction names generalizing s with
  | nil =>
      cases passed
      exact all
  | cons first names ih =>
      cases hs : s.node with
      | directory es =>
          have inside := hereditary.inside es (hs ▸ all.node)
          simp only [passNames, hs] at passed
          split at passed
          · exact ih all passed
          split at passed
          · exact ih all.up passed
          split at passed
          · cases passed
          split at passed
          · split at passed
            · cases passed
              exact all.enter hereditary.new first
            · cases passed
          · next target entry =>
              split at passed
              · refine onLinks _ _ t ?_ passed
                split
                · exact all.toTop
                · exact all
              · cases passed
                exact all.enter (inside _ (mem_of_lookup entry)) first
          · next n _ entry => exact ih (all.enter (inside _ (mem_of_lookup entry)) first) passed
      | _ =>
          simp only [passNames, hs] at passed
          cases passed

theorem all_of_passLinks (links : Nat) (names : List FileName) {s t : Spot} (all : s.All P)
    (passed : passLinks mode links names s = .ok t) : t.All P := by
  induction links generalizing names s t with
  | zero =>
      refine all_of_passNames hereditary (fun names s t _ never => ?_) names all passed
      cases never
  | succ links ih =>
      exact all_of_passNames hereditary (fun names s t all => ih names all) names all passed

theorem all_of_descend (names : List FileName) {s t : Spot} (all : s.All P)
    (passed : descend names s = .ok t) : t.All P := by
  induction names generalizing s with
  | nil =>
      cases passed
      exact all
  | cons name names ih =>
      rw [descend] at passed
      split at passed
      · next n entry =>
          cases hs : s.node with
          | directory es =>
              rw [hs] at entry
              have inside := hereditary.inside es (hs ▸ all.node)
              exact ih (all.enter (inside _ (mem_of_lookup entry)) name) passed
          | _ =>
              rw [hs] at entry
              cases entry
      · cases passed

theorem all_of_find {d : Disk} (root : P d.root) {p : Path} {s : Spot}
    (found : d.find mode p = .ok s) : s.All P := by
  obtain ⟨_, _, _, s₀, start, passed⟩ := (find_eq_ok_iff ..).mp found
  refine all_of_passLinks hereditary linkLimit p.steps ?_ passed
  unfold Disk.start at start
  split at start
  · cases start
    exact ⟨root, List.forall_mem_nil _⟩
  · exact all_of_descend hereditary d.workPlace ⟨root, List.forall_mem_nil _⟩ start

theorem of_node {d : Disk} (root : P d.root) {p : Path} {n : Node} (found : d.node p = .ok n) :
    P n := by
  obtain ⟨s, hf, rfl⟩ := exists_of_node found
  exact (all_of_find hereditary root hf).node

end Hereditary

theorem isName_of_listing {d : Disk} (named : d.root.Named) {p : Path}
    {es : List (FileName × Node)} (listed : d.listing p = .ok es) :
    ∀ e ∈ es, Path.IsName e.1 := by
  obtain ⟨n, found, rfl⟩ := listing_eq_ok_iff.mp listed
  have inside := of_node Node.hereditary_named named found
  intro e he
  have mem := List.mem_mergeSort.mp he
  cases inside with
  | directory names _ => exact names e mem
  | _ => cases mem

theorem lookup_of_mem {es : List (FileName × Node)} (distinct : (es.map Prod.fst).Nodup)
    {e : FileName × Node} (mem : e ∈ es) : es.lookup e.1 = some e.2 := by
  induction es with
  | nil => cases mem
  | cons first es ih =>
      rw [List.map_cons, List.nodup_cons] at distinct
      rcases List.mem_cons.mp mem with rfl | later
      · exact List.lookup_cons_self
      · have other : (e.1 == first.1) = false := by
          rw [beq_eq_false_iff_ne]
          intro same
          exact distinct.1 (List.mem_map.mpr ⟨e, later, same⟩)
        rw [List.lookup_cons, other]
        exact ih distinct.2 later

theorem node_of_find {d : Disk} {p : Path} {s : Spot} (found : d.find .through p = .ok s) :
    d.node p = .ok s.node :=
  congrArg (Except.map Spot.node) found

/-- From a directory the name of a sub-directory leads on to it. -/
theorem find_through_entry {d : Disk} (wellFormed : d.root.WellFormed) {p : Path} {s : Spot}
    (found : d.find .through p = .ok s) {es sub : List (FileName × Node)}
    (at_s : s.node = .directory es) (mem : (name, .directory sub) ∈ es)
    (short : (p.join ⟨name⟩).bytes.length < pathLimit) :
    Path.IsName name ∧
      d.find .through (p.join ⟨name⟩) = .ok (s.enter name (.directory sub)) ∧
      d.isRealDirectory (p.join ⟨name⟩) := by
  have nonempty : p.bytes ≠ [] := ((find_eq_ok_iff ..).mp found).2.1
  have here := of_node Node.hereditary_wellFormed wellFormed (node_of_find found)
  rw [at_s] at here
  cases here with
  | directory names distinct _ =>
      have isName := names _ mem
      have lookup := lookup_of_mem distinct mem
      have step : s.step name = .ok (s.enter name (.directory sub)) :=
        (Spot.step_eq_ok_iff isName).mpr ⟨es, _, at_s, lookup, rfl⟩
      exact ⟨isName, find_through_join isName nonempty short found step rfl,
        (isRealDirectory_join isName nonempty).mpr ⟨short, s, es, sub, found, at_s, lookup⟩⟩

section Listed

variable {d : Disk} (wellFormed : d.root.WellFormed) {p : Path} {es : List (FileName × Node)}
  (listed : d.listing p = .ok es) {e : FileName × Node} (mem : e ∈ es)
include wellFormed listed mem

/-- What is listed can be looked up where the path leads. -/
theorem lookup_listed : ∃ s inside, d.find .through p = .ok s ∧ s.node = .directory inside ∧
    inside.lookup e.1 = some e.2 ∧ Path.IsName e.1 := by
  obtain ⟨n, found, rfl⟩ := listing_eq_ok_iff.mp listed
  have entry := List.mem_mergeSort.mp mem
  have inside := of_node Node.hereditary_wellFormed wellFormed found
  obtain ⟨s, hf, rfl⟩ := exists_of_node found
  cases at_s : s.node with
  | directory inner =>
      rw [at_s] at inside entry
      cases inside with
      | directory names distinct _ =>
          exact ⟨s, inner, hf, at_s, lookup_of_mem distinct entry, names e entry⟩
  | _ =>
      rw [at_s] at entry
      cases entry

/-- Among all that is listed, the directories that are no links are opened by their paths. -/
theorem isRealDirectory_listed (nonempty : p.bytes ≠ []) : d.isRealDirectory (p.join ⟨e.1⟩) ↔
    (p.join ⟨e.1⟩).bytes.length < pathLimit ∧ e.2.isDirectory := by
  obtain ⟨s, inside, found, node, entry, isName⟩ := lookup_listed wellFormed listed mem
  rw [isRealDirectory_join isName nonempty]
  refine and_congr_right fun _ => ?_
  obtain ⟨name, n⟩ := e
  constructor
  · intro ⟨s', es', sub, found', node', entry'⟩
    cases found.symm.trans found'
    cases node.symm.trans node'
    cases entry.symm.trans entry'
    rfl
  · intro directory
    cases n with
    | directory sub => exact ⟨s, inside, sub, found, node, entry⟩
    | _ => cases directory

end Listed

end Disk
end SaveContainer
