import SaveContainer.Proofs.Lookup

/-!
Paths that hang below another by names of entries. Main statement: each name adds one component, so
two such paths have the same components only if they are the same.
-/

namespace SaveContainer.Path

variable {p : Path} {name : FileName} {names names' : List FileName}

theorem exists_first_piece (bytes : List UInt8) :
    ∃ first rest, pieces slash bytes = first :: rest := by
  rw [pieces_eq_splitOn]
  exact List.exists_cons_of_ne_nil (List.splitOnP_ne_nil _ bytes)

theorem key_join (nonempty : p.bytes ≠ []) (h : IsName name) :
    (p.join ⟨name⟩).key = p.key ++ [name] := by
  have absolute := isAbsolute_join nonempty h
  have bytes := join_bytes nonempty h
  cases ends : p.endsInSlash with
  | true =>
      -- The empty piece behind the last slash gives way to the name.
      obtain ⟨front, eq⟩ := List.getLast?_eq_some_iff.mp (beq_iff_eq.mp ends)
      obtain ⟨first, rest, at_front⟩ := exists_first_piece front
      rw [ends, if_pos rfl, List.append_nil, eq, List.append_assoc, List.singleton_append] at bytes
      have longer := pieces_append front h.slash_notMem
      have shorter := pieces_append front (List.not_mem_nil (a := slash))
      rw [← bytes, at_front] at longer
      rw [← eq, at_front] at shorter
      unfold key
      rw [longer, shorter, absolute]
      simp [h.ne_nil, h.ne_dot]
  | false =>
      obtain ⟨first, rest, at_front⟩ := exists_first_piece p.bytes
      rw [ends, if_neg Bool.false_ne_true, List.append_assoc, List.singleton_append] at bytes
      have longer := pieces_append p.bytes h.slash_notMem
      rw [← bytes, at_front] at longer
      unfold key
      rw [longer, at_front, absolute]
      simp [h.ne_nil, h.ne_dot]

theorem length_lt_join (nonempty : p.bytes ≠ []) (h : IsName name) :
    p.bytes.length < (p.join ⟨name⟩).bytes.length := by
  have pos := List.length_pos_iff.mpr h.ne_nil
  rw [join_bytes nonempty h, List.length_append, List.length_append]
  omega

/-- The path that the names lead to from `p`. -/
def below (p : Path) (names : List FileName) : Path :=
  names.foldl (fun q name => q.join ⟨name⟩) p

@[simp] theorem below_nil (p : Path) : p.below [] = p := rfl

theorem below_concat (p : Path) (names : List FileName) (name : FileName) :
    p.below (names ++ [name]) = (p.below names).join ⟨name⟩ := by
  rw [below, List.foldl_append]
  rfl

theorem below_ne_nil (nonempty : p.bytes ≠ []) (names : List FileName) :
    (p.below names).bytes ≠ [] := by
  induction names using List.reverseRecOn with
  | nil => exact nonempty
  | append_singleton names name ih =>
      rw [below_concat]
      exact join_ne_nil ih _

theorem key_below (nonempty : p.bytes ≠ []) (h : ∀ name ∈ names, IsName name) :
    (p.below names).key = p.key ++ names := by
  induction names using List.reverseRecOn with
  | nil => simp
  | append_singleton names name ih =>
      rw [List.forall_mem_append] at h
      rw [below_concat, key_join (below_ne_nil nonempty names) (h.2 name (by simp)), ih h.1,
        List.append_assoc]

theorem below_inj (nonempty : p.bytes ≠ []) (h : ∀ name ∈ names, IsName name)
    (h' : ∀ name ∈ names', IsName name) (same : (p.below names).key = (p.below names').key) :
    names = names' := by
  rw [key_below nonempty h, key_below nonempty h'] at same
  exact List.append_cancel_left same

/-- The path hangs below `p` by names that entries have. -/
def IsBelow (p q : Path) : Prop :=
  ∃ names, (∀ name ∈ names, IsName name) ∧ q = p.below names

variable {q r : Path}

theorem isBelow_self (p : Path) : IsBelow p p :=
  ⟨[], List.forall_mem_nil _, rfl⟩

theorem IsBelow.join (h : IsBelow p q) (isName : IsName name) : IsBelow p (q.join ⟨name⟩) := by
  obtain ⟨names, all, rfl⟩ := h
  refine ⟨names ++ [name], List.forall_mem_append.mpr ⟨all, ?_⟩, (below_concat p names name).symm⟩
  exact List.forall_mem_singleton.mpr isName

theorem IsBelow.ne_nil (h : IsBelow p q) (nonempty : p.bytes ≠ []) : q.bytes ≠ [] := by
  obtain ⟨names, -, rfl⟩ := h
  exact below_ne_nil nonempty names

theorem IsBelow.eq_of_key (h : IsBelow p q) (h' : IsBelow p r) (nonempty : p.bytes ≠ [])
    (same : q.key = r.key) : q = r := by
  obtain ⟨names, all, rfl⟩ := h
  obtain ⟨names', all', rfl⟩ := h'
  rw [below_inj nonempty all all' same]

theorem IsBelow.key_join_ne (h : IsBelow p q) (nonempty : p.bytes ≠ []) (isName : IsName name) :
    (q.join ⟨name⟩).key ≠ p.key := by
  obtain ⟨names, all, rfl⟩ := h
  rw [key_join (below_ne_nil nonempty names) isName, key_below nonempty all, List.append_assoc]
  simp

end SaveContainer.Path
