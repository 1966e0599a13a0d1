import SaveContainer.Proofs.Act
import SaveContainer.Sink

/-!
What a sink does with the bytes it is given. Writing leaves no call in the trace, and a sink
without a budget that takes at least one byte at a time takes all of them and stays as it is.
-/

namespace SaveContainer.Sink

/-- No write is refused, though it may have to be repeated for the rest of the bytes. -/
def AcceptsAll (s : Sink) : Prop :=
  s.budget = none ∧ s.chunk ≠ some 0

instance (s : Sink) : Decidable s.AcceptsAll :=
  inferInstanceAs (Decidable (_ ∧ _))

theorem write_pieces (bytes : List UInt8) (s : Sink) :
    ∃ pieces : List (List UInt8), (write bytes s).trace = pieces.map .wrote := by
  simp only [write]
  split
  · exact ⟨[_], rfl⟩
  · split <;> exact ⟨[], rfl⟩

theorem writeWithin_pieces (tries : Nat) (bytes : List UInt8) (s : Sink) :
    ∃ pieces : List (List UInt8), (writeWithin tries bytes s).trace = pieces.map .wrote := by
  induction tries generalizing bytes s with
  | zero => cases bytes <;> exact ⟨[], rfl⟩
  | succ tries ih =>
      cases bytes with
      | nil => exact ⟨[], rfl⟩
      | cons b bytes =>
          obtain ⟨first, hfirst⟩ := write_pieces (b :: bytes) s
          simp only [writeWithin]
          cases h : (write (b :: bytes) s).result with
          | error e => exact ⟨first, by rw [Act.bind_of_error h, hfirst]⟩
          | ok taken =>
              rw [Act.bind_of_ok h, hfirst]
              dsimp only
              split
              · exact ⟨first, List.append_nil _⟩
              · obtain ⟨rest, hrest⟩ := ih ((b :: bytes).drop taken) (write (b :: bytes) s).state
                exact ⟨first ++ rest, by rw [hrest, List.map_append]⟩

theorem writeAll_calls (bytes : List UInt8) (s : Sink) : (writeAll bytes s).trace.calls = [] := by
  obtain ⟨pieces, eq⟩ := writeWithin_pieces bytes.length bytes s
  rw [writeAll, eq, Trace.calls_pieces]

theorem writeAll_events (bytes : List UInt8) (s : Sink) :
    (writeAll bytes s).trace.events = [] := by
  obtain ⟨pieces, eq⟩ := writeWithin_pieces bytes.length bytes s
  rw [writeAll, eq, Trace.events_pieces]

theorem write_error {bytes : List UInt8} {s : Sink} {e : Fault}
    (h : (write bytes s).result = .error e) : ∃ cause, e = .io cause := by
  simp only [write] at h
  split at h
  · cases h
  · split at h
    · cases h
    · exact ⟨_, (Except.error.inj h).symm⟩

theorem writeWithin_error {tries : Nat} {bytes : List UInt8} {s : Sink} {e : Fault}
    (h : (writeWithin tries bytes s).result = .error e) : ∃ cause, e = .io cause := by
  induction tries generalizing bytes s with
  | zero =>
      cases bytes with
      | nil => cases h
      | cons b bytes => exact ⟨_, (Except.error.inj h).symm⟩
  | succ tries ih =>
      cases bytes with
      | nil => cases h
      | cons b bytes =>
          simp only [writeWithin] at h
          cases hw : (write (b :: bytes) s).result with
          | error f =>
              rw [Act.bind_of_error hw] at h
              cases h
              exact write_error hw
          | ok taken =>
              rw [Act.bind_of_ok hw] at h
              dsimp only at h
              split at h
              · exact ⟨_, (Except.error.inj h).symm⟩
              · exact ih h

/-- Whatever goes wrong with a write comes from the writer. -/
theorem writeAll_error {bytes : List UInt8} {s : Sink} {e : Fault}
    (h : (writeAll bytes s).result = .error e) : ∃ cause, e = .io cause :=
  writeWithin_error h

/-- What a write comes to that the budget has no room for. -/
def refusal (s : Sink) : Fault :=
  .io (if s.zeroAtEnd then .nothingWritten else .writerClosed)

section Budget

variable {s : Sink}

@[simp] theorem spend_zero : s.spend 0 = s := by
  obtain ⟨budget, chunk, zeroAtEnd, flushFails⟩ := s
  cases budget <;> rfl

@[simp] theorem spend_spend (m n : Nat) : (s.spend m).spend n = s.spend (m + n) := by
  obtain ⟨budget, chunk, zeroAtEnd, flushFails⟩ := s
  cases budget with
  | none => rfl
  | some left => simp only [spend, Option.map_some, Nat.sub_sub]

@[simp] theorem fits_zero : s.fits 0 = true := by
  obtain ⟨budget, chunk, zeroAtEnd, flushFails⟩ := s
  cases budget <;> simp [fits]

theorem fits_mono {m n : Nat} (le : m ≤ n) (h : s.fits n) : s.fits m := by
  obtain ⟨budget, chunk, zeroAtEnd, flushFails⟩ := s
  cases budget with
  | none => rfl
  | some left =>
      simp only [fits, decide_eq_true_eq] at h ⊢
      omega

theorem short_mono {m n : Nat} (le : m ≤ n) (h : s.fits m = false) : s.fits n = false := by
  cases hn : s.fits n with
  | false => rfl
  | true => exact absurd (fits_mono le hn) (Bool.eq_false_iff.mp h)

theorem fits_spend {m : Nat} (h : s.fits m) (n : Nat) : (s.spend m).fits n = s.fits (m + n) := by
  obtain ⟨budget, chunk, zeroAtEnd, flushFails⟩ := s
  cases budget with
  | none => rfl
  | some left =>
      simp only [fits, decide_eq_true_eq] at h
      simp only [fits, spend, Option.map_some, decide_eq_decide]
      omega

theorem pieceSize_le (size : Nat) : s.pieceSize size ≤ size := by
  unfold pieceSize
  split <;> omega

theorem pieceSize_ne_zero (chunk : s.chunk ≠ some 0) {size : Nat} (pos : size ≠ 0) :
    s.pieceSize size ≠ 0 := by
  unfold pieceSize
  cases hc : s.chunk with
  | none => exact pos
  | some c =>
      have : c ≠ 0 := fun zero => chunk (hc.trans (congrArg some zero))
      simp only
      omega

theorem writeWithin_nil (tries : Nat) : writeWithin tries [] s = ⟨.ok (), s, []⟩ := by
  cases tries <;> rfl

/-- A write that the budget has room for takes a beginning, and the rest is written next. -/
theorem writeWithin_succ (chunk : s.chunk ≠ some 0) (tries : Nat) (b : UInt8) (bytes : List UInt8)
    {size : Nat} (hsize : s.pieceSize (b :: bytes).length = size) (room : s.fits size) :
    let o := writeWithin tries ((b :: bytes).drop size) (s.spend size)
    writeWithin (tries + 1) (b :: bytes) s =
      ⟨o.result, o.state, .wrote ((b :: bytes).take size) :: o.trace⟩ := by
  subst hsize
  have run : write (b :: bytes) s = ⟨.ok _, _, [_]⟩ := if_pos room
  have pos : s.pieceSize (b :: bytes).length ≠ 0 := pieceSize_ne_zero chunk (Nat.succ_ne_zero _)
  simp only [writeWithin]
  rw [Act.bind_of_ok (congrArg Outcome.result run), run]
  simp only [pos, if_false]
  rfl

/-- What a piece leaves is shorter, so that one try less is enough for it. -/
theorem length_drop_piece (chunk : s.chunk ≠ some 0) {tries : Nat} {b : UInt8}
    {bytes : List UInt8} {size : Nat} (hsize : s.pieceSize (b :: bytes).length = size)
    (le : (b :: bytes).length ≤ tries + 1) :
    size + ((b :: bytes).drop size).length = (b :: bytes).length ∧
      ((b :: bytes).drop size).length ≤ tries := by
  have pos : size ≠ 0 := hsize ▸ pieceSize_ne_zero chunk (Nat.succ_ne_zero _)
  have within : size ≤ (b :: bytes).length := hsize ▸ s.pieceSize_le _
  rw [List.length_drop]
  omega

/-- A line may be taken in several pieces; nothing of it is lost or repeated. -/
theorem writeWithin_of_fits (chunk : s.chunk ≠ some 0) {tries : Nat} {bytes : List UInt8}
    (le : bytes.length ≤ tries) (fits : s.fits bytes.length) :
    (writeWithin tries bytes s).result = .ok () ∧
      (writeWithin tries bytes s).state = s.spend bytes.length ∧
      (writeWithin tries bytes s).trace.written = bytes := by
  induction tries generalizing bytes s with
  | zero =>
      obtain rfl := List.length_eq_zero_iff.mp (Nat.le_zero.mp le)
      exact ⟨rfl, spend_zero.symm, rfl⟩
  | succ tries ih =>
      cases bytes with
      | nil => exact ⟨rfl, spend_zero.symm, rfl⟩
      | cons b bytes =>
          generalize hsize : s.pieceSize (b :: bytes).length = size
          have room : s.fits size := fits_mono (hsize ▸ s.pieceSize_le _) fits
          obtain ⟨total, le'⟩ := length_drop_piece chunk hsize le
          obtain ⟨result, state, written⟩ := ih (s := s.spend size) chunk le'
            (by rwa [fits_spend room, total])
          rw [writeWithin_succ chunk tries b bytes hsize room]
          refine ⟨result, ?_, ?_⟩
          · rw [state, spend_spend, total]
          · rw [Trace.written_cons_wrote, written, List.take_append_drop]

/-- A line that the budget has no room for is taken up to a place before its end. -/
theorem writeWithin_of_short (chunk : s.chunk ≠ some 0) {tries : Nat} {bytes : List UInt8}
    (le : bytes.length ≤ tries) (short : s.fits bytes.length = false) :
    let o := writeWithin tries bytes s
    o.result = .error s.refusal ∧ o.trace.written <+: bytes ∧ o.trace.written ≠ bytes ∧
      s.fits o.trace.written.length := by
  induction tries generalizing bytes s with
  | zero =>
      obtain rfl := List.length_eq_zero_iff.mp (Nat.le_zero.mp le)
      simp at short
  | succ tries ih =>
      cases bytes with
      | nil => simp at short
      | cons b bytes =>
          generalize hsize : s.pieceSize (b :: bytes).length = size
          have within : size ≤ (b :: bytes).length := hsize ▸ s.pieceSize_le _
          cases room : s.fits size with
          | true =>
              obtain ⟨total, le'⟩ := length_drop_piece chunk hsize le
              obtain ⟨result, ⟨more, written⟩, ne, fits⟩ := ih (s := s.spend size) chunk le'
                (by rwa [fits_spend room, total])
              rw [writeWithin_succ chunk tries b bytes hsize room]
              simp only [Trace.written_cons_wrote]
              refine ⟨result, ⟨more, ?_⟩, ?_, ?_⟩
              · rw [List.append_assoc, written, List.take_append_drop]
              · intro all
                exact ne (List.append_cancel_left (all.trans (List.take_append_drop size _).symm))
              · rwa [List.length_append, List.length_take_of_le within, ← fits_spend room]
          | false =>
              -- The sink takes nothing: it answers with no bytes or with a fault.
              have none : [] ≠ b :: bytes := nofun
              simp only [writeWithin]
              cases zero : s.zeroAtEnd with
              | true =>
                  have run : write (b :: bytes) s = ⟨.ok 0, s, []⟩ := by
                    simp only [write, hsize, room, zero]
                    rfl
                  rw [Act.bind_of_ok (congrArg Outcome.result run), run]
                  exact ⟨by simp [refusal, zero], List.nil_prefix, none, fits_zero⟩
              | false =>
                  have run : write (b :: bytes) s = ⟨.error (.io .writerClosed), s, []⟩ := by
                    simp only [write, hsize, room, zero]
                    rfl
                  rw [Act.bind_of_error (congrArg Outcome.result run), run]
                  exact ⟨by simp [refusal, zero], List.nil_prefix, none, fits_zero⟩

end Budget

theorem AcceptsAll.writeAll {s : Sink} (h : s.AcceptsAll) (bytes : List UInt8) :
    (Sink.writeAll bytes s).result = .ok () ∧ (Sink.writeAll bytes s).state = s ∧
      (Sink.writeAll bytes s).trace.written = bytes := by
  obtain ⟨budget, chunk⟩ := h
  have fits : s.fits bytes.length := by rw [Sink.fits, budget]
  have kept : s.spend bytes.length = s := by
    cases s
    cases budget
    rfl
  have run := writeWithin_of_fits chunk (Nat.le_refl _) fits
  rw [kept] at run
  exact run

end SaveContainer.Sink
