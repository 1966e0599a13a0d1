import SaveContainer.Proofs.Act
import SaveContainer.Proofs.Numbering

/-!
Adding members settles the places that they ask for, one by one. Main statement: as long as this
goes on the catalogue represents what is settled, it stops only at a member that is too deep or at
a place that cannot be settled, and then says that the container is corrupt.
-/

namespace SaveContainer

open Place

namespace Catalogue

theorem componentName_of_sound (member : String) {part : List Char} (sound : SoundPart part) :
    ∃ name : ShortName, componentName member part = .ok name ∧
      name.toBytes = Utf8.encode part := by
  obtain ⟨nonempty, dot, dots, fits, zero⟩ := sound
  obtain ⟨name, hname⟩ := ShortName.ofBytes_isOk_iff.mpr ⟨fits, zero⟩
  refine ⟨name, ?_, ShortName.toBytes_ofBytes hname⟩
  rw [componentName, if_neg (by simp [nonempty, dot, dots]), hname]
  rfl

theorem componentName_of_unsound (member : String) {part : List Char}
    (unsound : ¬ SoundPart part) :
    ∃ how, componentName member part = .error (.corrupt how) := by
  rw [componentName]
  split
  · exact ⟨_, rfl⟩
  · next named =>
      simp only [not_or] at named
      cases hname : ShortName.ofBytes (Utf8.encode part) with
      | error cause => exact ⟨_, rfl⟩
      | ok name =>
          obtain ⟨fits, zero⟩ := ShortName.ofBytes_isOk_iff.mp ⟨name, hname⟩
          exact absurd ⟨named.1, named.2.1, named.2.2, fits, zero⟩ unsound

namespace Represents

variable {c : Catalogue} {settled : List Place} (h : Represents c settled)
  {p : List (List Char)} {parent : Nat} {part : List Char} {name : ShortName}
  (at_parent : (⟨p, .directory⟩, parent) ∈ numbered settled)
  (hname : name.toBytes = Utf8.encode part)
include h at_parent hname

theorem number?_of_fresh (fresh : ∀ y ∈ settled, y.path ≠ p ++ [part]) :
    c.number? parent name = none := by
  rw [Option.eq_none_iff_forall_ne_some]
  intro ino found
  obtain ⟨q, part', k, hq, mem, hname'⟩ := (h.number _ _ _).mp found
  obtain rfl := eq_of_mem_numbered hq at_parent
  obtain rfl := Utf8.encode_injective (hname'.symm.trans hname)
  cases List.mem_cons.mp (mem_of_mem_numbered mem) with
  | inl eq => simp [root] at eq
  | inr mem => exact fresh _ mem rfl

theorem number?_of_mem {k : EntryKind} (mem : ⟨p ++ [part], k⟩ ∈ settled) :
    ∃ ino, c.number? parent name = some ino ∧ (⟨p ++ [part], k⟩, ino) ∈ numbered settled := by
  obtain ⟨ino, hino⟩ := exists_mem_numbered (List.mem_cons_of_mem root mem)
  exact ⟨ino, (h.number _ _ _).mpr ⟨_, part, k, at_parent, hino, hname⟩, hino⟩

end Represents

/-- How adding the `wanted` places to those that are settled ends. Whatever was settled before a
refusal stays; `admitted` is asked for besides. -/
inductive Settles (settled wanted : List Place) (admitted : Prop) : Outcome Catalogue Unit → Prop
  | whole {c : Catalogue} {t : Trace} {settled' : List Place} :
      admitted → wanted.foldlM settle? settled = some settled' → Represents c settled' →
      Settles settled wanted admitted ⟨.ok (), c, t⟩
  | refused {c : Catalogue} {t : Trace} {how : Corruption} {first settled' : List Place} :
      first <+: wanted → first.foldlM settle? settled = some settled' → Represents c settled' →
      (admitted → wanted.foldlM settle? settled = none) →
      Settles settled wanted admitted ⟨.error (.corrupt how), c, t⟩

namespace Settles

variable {settled settled' wanted wanted' : List Place} {x : Place} {admitted admitted' : Prop}

theorem cons {o : Outcome Catalogue Unit} (first : settle? settled x = some settled')
    (rest : Settles settled' wanted admitted o) : Settles settled (x :: wanted) admitted o := by
  cases rest with
  | whole admitted all represents =>
      exact .whole admitted (by rw [List.foldlM_cons, first]; exact all) represents
  | @refused _ _ _ done _ start some represents none =>
      have start' : x :: done <+: x :: wanted := List.cons_prefix_cons.mpr ⟨rfl, start⟩
      refine .refused start' ?_ represents ?_
      · rw [List.foldlM_cons, first]
        exact some
      · intro admitted
        rw [List.foldlM_cons, first]
        exact none admitted

theorem refused_first {c : Catalogue} {t : Trace} {how : Corruption}
    (represents : Represents c settled) (none : settle? settled x = none) :
    Settles settled (x :: wanted) admitted ⟨.error (.corrupt how), c, t⟩ := by
  refine .refused List.nil_prefix rfl represents fun _ => ?_
  rw [List.foldlM_cons, none]
  rfl

theorem seq {m m' : Act Catalogue Unit} {c : Catalogue}
    (first : Settles settled wanted admitted (m c))
    (second : ∀ c' settled', Represents c' settled' → Settles settled' wanted' admitted' (m' c')) :
    Settles settled (wanted ++ wanted') (admitted ∧ admitted') ((do m; m') c) := by
  generalize hm : m c = o at first
  cases first with
  | whole admitted all represents =>
      rw [Act.bind_of_ok (congrArg Outcome.result hm), hm]
      have rest := second _ _ represents
      generalize m' _ = o' at rest ⊢
      cases rest with
      | whole admitted' all' represents' =>
          refine .whole ⟨admitted, admitted'⟩ ?_ represents'
          rw [List.foldlM_append, all]
          exact all'
      | refused start some represents' none =>
          refine .refused ((List.prefix_append_right_inj wanted).mpr start) ?_ represents' ?_
          · rw [List.foldlM_append, all]
            exact some
          · intro ⟨_, admitted'⟩
            rw [List.foldlM_append, all]
            exact none admitted'
  | refused start some represents none =>
      rw [Act.bind_of_error (congrArg Outcome.result hm), hm]
      refine .refused (start.trans (List.prefix_append wanted wanted')) some represents ?_
      intro ⟨admitted, _⟩
      rw [List.foldlM_append, none admitted]
      rfl

end Settles

section Steps

variable {c : Catalogue} {settled : List Place} (h : Represents c settled)
  {p : List (List Char)} {parent : Nat} {part : List Char} {name : ShortName} (member : String)
  (at_parent : (⟨p, .directory⟩, parent) ∈ numbered settled)
  (hname : name.toBytes = Utf8.encode part) (sound : SoundPart part)
include h at_parent hname sound

theorem directoryAt_run :
    (∃ how, directoryAt member parent name c = ⟨.error (.corrupt how), c, []⟩ ∧
        settle? settled ⟨p ++ [part], .directory⟩ = none) ∨
      ∃ ino c' settled', directoryAt member parent name c = ⟨.ok ino, c', []⟩ ∧
        settle? settled ⟨p ++ [part], .directory⟩ = some settled' ∧ Represents c' settled' ∧
        (⟨p ++ [part], .directory⟩, ino) ∈ numbered settled' := by
  have sound' : Place.Sound ⟨p ++ [part], .directory⟩ := by simpa [Place.Sound] using sound
  simp only [directoryAt, Act.get_bind]
  by_cases fresh : ∀ y ∈ settled, y.path ≠ p ++ [part]
  · rw [h.number?_of_fresh at_parent hname fresh]
    have new := h.insert .directory at_parent hname (by simpa [root] using fresh)
    refine .inr ⟨_, _, _, rfl, settle?_of_fresh sound' fresh, new, ?_⟩
    rw [numbered_concat, h.size]
    exact List.mem_append_right _ (List.mem_singleton_self _)
  · simp only [not_forall, not_not] at fresh
    obtain ⟨⟨_, k⟩, mem, rfl⟩ := fresh
    obtain ⟨ino, found, at_ino⟩ := h.number?_of_mem at_parent hname mem
    rw [found]
    cases k with
    | directory =>
        have known : c.isDirectory ino = true := (h.isDirectory_iff at_ino).mpr rfl
        have settles := settle?_of_mem sound' rfl (List.nodup_cons.mp h.distinct).2 mem
        exact .inr ⟨ino, c, settled, by simp [known], settles, h, at_ino⟩
    | file =>
        have known : c.isDirectory ino = false := by
          simpa using mt (h.isDirectory_iff at_ino).mp (by simp)
        exact .inl ⟨.fileAndDirectory member name, by simp [known],
          settle?_of_conflict mem rfl (.inl rfl)⟩

theorem fileAt_run :
    (∃ how, fileAt member parent name c = ⟨.error (.corrupt how), c, []⟩ ∧
        settle? settled ⟨p ++ [part], .file⟩ = none) ∨
      ∃ c' settled', fileAt member parent name c = ⟨.ok (), c', []⟩ ∧
        settle? settled ⟨p ++ [part], .file⟩ = some settled' ∧ Represents c' settled' := by
  have sound' : Place.Sound ⟨p ++ [part], .file⟩ := by simpa [Place.Sound] using sound
  simp only [fileAt, Act.get_bind]
  by_cases fresh : ∀ y ∈ settled, y.path ≠ p ++ [part]
  · rw [h.number?_of_fresh at_parent hname fresh]
    have new := h.insert .file at_parent hname (by simpa [root] using fresh)
    exact .inr ⟨_, _, rfl, settle?_of_fresh sound' fresh, new⟩
  · simp only [not_forall, not_not] at fresh
    obtain ⟨⟨_, k⟩, mem, rfl⟩ := fresh
    obtain ⟨ino, found, -⟩ := h.number?_of_mem at_parent hname mem
    rw [found]
    exact .inl ⟨_, rfl, settle?_of_conflict mem rfl (.inr rfl)⟩

end Steps

/-- Only the last component can be a file, so the way to it is settled as directories. -/
theorem addPath_settles (member : String) (kind : EntryKind) (parts : List (List Char))
    {c : Catalogue} {settled : List Place} (h : Represents c settled) {p : List (List Char)}
    {parent : Nat} (at_parent : (⟨p, .directory⟩, parent) ∈ numbered settled) :
    Settles settled (below kind p parts) True (addPath member kind parent parts c) := by
  induction parts generalizing c settled p parent with
  | nil => exact .whole trivial rfl h
  | cons part rest ih =>
      by_cases sound : SoundPart part
      · obtain ⟨name, named, hname⟩ := componentName_of_sound member sound
        rw [addPath, named]
        change Settles _ _ _ ((if _ then _ else _ : Act Catalogue Unit) c)
        by_cases last : rest = [] ∧ kind = .file
        · rw [if_pos last]
          obtain ⟨rfl, rfl⟩ := last
          rcases fileAt_run h member at_parent hname sound with
            ⟨how, run, none⟩ | ⟨c', settled', run, some, represents⟩
          · rw [run]
            exact .refused_first h none
          · rw [run]
            exact .cons some (.whole trivial rfl represents)
        · have kind_eq : (if rest = [] then kind else .directory) = .directory := by
            cases kind <;> simp_all
          rw [if_neg last, below, kind_eq]
          rcases directoryAt_run h member at_parent hname sound with
            ⟨how, run, none⟩ | ⟨ino, c', settled', run, some, represents, at_ino⟩
          · rw [Act.bind_of_error (congrArg Outcome.result run), run]
            exact .refused_first h none
          · rw [Act.bind_of_ok (congrArg Outcome.result run), run]
            exact .cons some (ih represents at_ino)
      · obtain ⟨how, unnamed⟩ := componentName_of_unsound member sound
        rw [addPath, unnamed]
        have unsound : ¬ Place.Sound ⟨p ++ [part], if rest = [] then kind else .directory⟩ := by
          simpa [Place.Sound] using sound
        exact .refused_first h (settle?_of_unsound unsound)

theorem addMember_eq (m : String × EntryKind) : addMember m.1 m.2 =
    if maxDepth < (pathOf m).length then Act.fail (.corrupt (.memberTooDeep (pathOf m).length))
    else addPath m.1 m.2 rootIno (pathOf m) := by
  rw [addMember, memberPath_eq_pathOf]

theorem addMember_settles (m : String × EntryKind) {c : Catalogue} {settled : List Place}
    (h : Represents c settled) :
    Settles settled (wanted m) ((pathOf m).length ≤ maxDepth) (addMember m.1 m.2 c) := by
  rw [addMember_eq]
  by_cases deep : maxDepth < (pathOf m).length
  · rw [if_pos deep]
    exact .refused List.nil_prefix rfl h fun short => absurd deep (Nat.not_lt.mpr short)
  · rw [if_neg deep, eq_true (Nat.le_of_not_lt deep)]
    exact addPath_settles m.1 m.2 _ h (List.mem_cons_self ..)

theorem addMembers_settles (members : List (String × EntryKind)) {c : Catalogue}
    {settled : List Place} (h : Represents c settled) :
    Settles settled (members.flatMap wanted)
      (∀ m ∈ members, (pathOf m).length ≤ maxDepth) (addMembers members c) := by
  induction members generalizing c settled with
  | nil => exact .whole (by simp) rfl h
  | cons m members ih =>
      rw [List.flatMap_cons, List.forall_mem_cons, addMembers]
      exact (addMember_settles m h).seq fun c' settled' h' => ih h'

end Catalogue

end SaveContainer
