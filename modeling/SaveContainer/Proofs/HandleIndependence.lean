import Mathlib.Logic.Function.Basic
import SaveContainer.Proofs.Sessions
import SaveContainer.Proofs.StableNumbers

/-!
Handles and the release of other handles. Main statement: a step that releases a handle can be left
out when no later step works on that handle, and a step can work on any clone of a save; nothing
else that the session answers tells the difference.
-/

namespace SaveContainer

namespace Session

open World

/-- A handle with none of these names shares the table at the place. -/
def Uses (s : Session) (hidden : String → Prop) (place : Nat) : Prop :=
  ∃ y h, ¬ hidden y ∧ s.handle? y = some h ∧ h.place? = some place

/-- The sessions hold the same but for the handles of some names, and have the same disk, and the
same tables for what else they hold. -/
structure AgreeOff (hidden : String → Prop) (s s' : Session) : Prop where
  handle : ∀ y, ¬ hidden y → s'.handle? y = s.handle? y
  world : s.world.AgreeOn (s.Uses hidden) s'.world

/-- The name under which a step keeps what it makes, if it goes well. -/
def Step.kept (st : Step) (s : Session) : Option String :=
  (act s.handle? st s.world).result.toOption.bind fun made => made.2.under

/-- The session after some steps. -/
def reached : List Step → Session → Session
  | [], s => s
  | st :: rest, s => reached rest (step st s).state

/-- No step works on a handle with one of these names, as long as nothing else is kept under it. -/
def Avoids (hidden : String → Prop) : List Step → Session → Prop
  | [], _ => True
  | st :: rest, s => (∀ y ∈ st.operands, ¬ hidden y) ∧
    Avoids (fun y => hidden y ∧ st.kept s ≠ some y) rest (step st s).state

section Agreement

variable {hidden : String → Prop} {s s' : Session}

theorem Uses.shared {place : Nat} (used : s.Uses hidden place) : s.shares place = true := by
  obtain ⟨y, h, -, found, shared⟩ := used
  exact shares_iff.mpr ⟨y, h, found, shared⟩

/-- What is swept away is used by nothing. -/
theorem agreeOn_swept (hidden : String → Prop) (s : Session) :
    s.world.AgreeOn (s.Uses hidden) s.swept.world :=
  ⟨rfl, Array.size_mapIdx, fun _ used => table_swept used.shared⟩

theorem AgreeOff.uses {place : Nat} (agree : AgreeOff hidden s s') (used : s.Uses hidden place) :
    s'.Uses hidden place := by
  obtain ⟨y, h, seen, found, shared⟩ := used
  exact ⟨y, h, seen, (agree.handle y seen).trans found, shared⟩

theorem AgreeOff.swept_left (agree : AgreeOff hidden s s') : AgreeOff hidden s.swept s' :=
  ⟨agree.handle, (agreeOn_swept hidden s).symm.trans agree.world⟩

theorem AgreeOff.swept_right (agree : AgreeOff hidden s s') : AgreeOff hidden s s'.swept :=
  ⟨agree.handle, agree.world.trans ((agreeOn_swept hidden s').mono fun _ => agree.uses)⟩

theorem AgreeOff.refl (s : Session) : AgreeOff hidden s s :=
  ⟨fun _ _ => rfl, rfl, rfl, fun _ _ => rfl⟩

theorem Uses.mono {hidden' : String → Prop} {place : Nat} (used : s.Uses hidden' place)
    (sub : ∀ y, hidden y → hidden' y) : s.Uses hidden place := by
  obtain ⟨y, h, seen, found, shared⟩ := used
  exact ⟨y, h, fun h => seen (sub y h), found, shared⟩

theorem AgreeOff.mono {hidden' : String → Prop} (agree : AgreeOff hidden s s')
    (sub : ∀ y, hidden y → hidden' y) : AgreeOff hidden' s s' where
  handle y seen := agree.handle y fun h => seen (sub y h)
  world := agree.world.mono fun _ used => used.mono sub

theorem AgreeOff.trans {s'' : Session} (first : AgreeOff hidden s s')
    (second : AgreeOff hidden s' s'') : AgreeOff hidden s s'' where
  handle y seen := (second.handle y seen).trans (first.handle y seen)
  world := first.world.trans (second.world.mono fun _ => first.uses)

/-- What a move does with the handles, it does in both sessions; what is kept hides nothing any
more. -/
theorem AgreeOff.apply {move : Move} {w w' : World} (agree : AgreeOff hidden s s')
    (worlds : w.AgreeOn (fun place => s.Uses hidden place ∨ move.place? = some place) w') :
    AgreeOff (fun y => hidden y ∧ move.under ≠ some y) ⟨w, move.apply s.held⟩
      ⟨w', move.apply s'.held⟩ where
  handle y seen := by
    by_cases kept : move.under = some y
    · obtain ⟨h, rfl⟩ := Move.exists_of_under kept
      exact (Move.getElem?_apply_keep h).trans (Move.getElem?_apply_keep h).symm
    · exact Move.apply_congr (agree.handle y fun h => seen ⟨h, kept⟩)
  world := by
    refine worlds.mono fun place used => ?_
    obtain ⟨y, h, seen, found, shared⟩ := used
    by_cases kept : move.under = some y
    · obtain ⟨made, rfl⟩ := Move.exists_of_under kept
      cases (Move.getElem?_apply_keep made).symm.trans found
      exact .inr shared
    · exact .inl ⟨y, h, fun h => seen ⟨h, kept⟩, Move.getElem?_of_apply kept found, shared⟩

end Agreement

section Kept

variable {s : Session} {st : Step}

theorem kept_of_ok {made : Answer × Move} (ended : (act s.handle? st s.world).result = .ok made) :
    st.kept s = made.2.under := by
  rw [Step.kept, ended]
  rfl

theorem kept_of_error {e : Fault} (ended : (act s.handle? st s.world).result = .error e) :
    st.kept s = none := by
  rw [Step.kept, ended]
  rfl

end Kept

section Steps

variable {hidden : String → Prop} {s s' : Session}

theorem AgreeOff.step {st : Step} (agree : AgreeOff hidden s s')
    (avoids : ∀ y ∈ st.operands, ¬ hidden y) :
    (step st s').result = (step st s).result ∧
      AgreeOff (fun y => hidden y ∧ st.kept s ≠ some y) (step st s).state (step st s').state := by
  have same : act s'.handle? st = act s.handle? st :=
    act_congr fun y mem => agree.handle y (avoids y mem)
  have seen : Seen (s.Uses hidden) (act s.handle? st) := seen_act fun y mem h found place shared =>
    ⟨y, h, avoids y mem, found, shared⟩
  obtain ⟨result, -, worlds, made⟩ := seen s.world s'.world agree.world
  cases ended : (act s.handle? st s.world).result with
  | error e =>
      have ended' : (act s'.handle? st s'.world).result = .error e := by rw [same, result, ended]
      rw [step_of_error ended, step_of_error ended', same, kept_of_error ended]
      -- A step that fails keeps nothing, so what is hidden stays so.
      have left : AgreeOff hidden { s with world := (act s.handle? st s.world).state }
          { s' with world := (act s.handle? st s'.world).state } := ⟨agree.handle, worlds⟩
      exact ⟨rfl, left.mono fun y h => ⟨h, nofun⟩⟩
  | ok a =>
      obtain ⟨a, move⟩ := a
      have ended' : (act s'.handle? st s'.world).result = .ok (a, move) := by
        rw [same, result, ended]
      rw [step_of_ok ended, step_of_ok ended', same, kept_of_ok ended]
      exact ⟨rfl, (agree.apply (made _ ended)).swept_left.swept_right⟩

/-- By induction on the steps, with fewer names hidden after each of them. -/
theorem AgreeOff.run {steps : List Step} (agree : AgreeOff hidden s s')
    (avoids : Avoids hidden steps s) :
    (run steps s').map Prod.fst = (run steps s).map Prod.fst := by
  induction steps generalizing hidden s s' with
  | nil => rfl
  | cons st rest ih =>
      obtain ⟨result, reached⟩ := agree.step avoids.1
      exact List.cons_eq_cons.mpr ⟨result, ih reached avoids.2⟩

theorem run_append (before after : List Step) (s : Session) :
    Session.run (before ++ after) s =
      Session.run before s ++ Session.run after (reached before s) := by
  induction before generalizing s with
  | nil => rfl
  | cons st rest ih => exact congrArg _ (ih _)

theorem reached_append (before after : List Step) (s : Session) :
    reached (before ++ after) s = reached after (reached before s) := by
  induction before generalizing s with
  | nil => rfl
  | cons st rest ih => exact ih _

/-- To release a handle changes nothing for the others. -/
theorem agreeOff_release (s : Session) (x : String) :
    AgreeOff (· = x) (Session.step (.release x) s).state s := by
  have ended : (act s.handle? (.release x) s.world).result =
      .ok (.flag (s.handle? x).isSome, .release x) := rfl
  rw [step_of_ok ended]
  exact AgreeOff.swept_left
    ⟨fun y seen => (Move.getElem?_apply_release seen).symm, rfl, rfl, fun _ _ => rfl⟩

theorem agreeOff_releases (s : Session) (gone : List String) :
    AgreeOff (· ∈ gone) (reached (gone.map .release) s) s := by
  induction gone generalizing s with
  | nil => exact .refl s
  | cons x gone ih =>
      have first : AgreeOff (· ∈ x :: gone) (Session.step (.release x) s).state s :=
        (agreeOff_release s x).mono fun y eq => List.mem_cons.mpr (.inl eq)
      have others : AgreeOff (· ∈ x :: gone) (reached (gone.map .release) _) _ :=
        (ih (Session.step (.release x) s).state).mono fun y => List.mem_cons_of_mem x
      exact others.trans first

/-- Nothing is hidden from steps that do not name it. -/
theorem avoids_of_operands {steps : List Step}
    (names : ∀ st ∈ steps, ∀ y ∈ st.operands, ¬ hidden y) : Avoids hidden steps s := by
  induction steps generalizing hidden s with
  | nil => trivial
  | cons st rest ih =>
      exact ⟨names st List.mem_cons_self,
        ih fun st mem y named h => names st (List.mem_cons_of_mem _ mem) y named h.1⟩

/-- After a step nothing new is held but what it kept. -/
theorem handle_of_step {st : Step} {y : String} {h : Held} (other : st.kept s ≠ some y)
    (found : (Session.step st s).state.handle? y = some h) : s.handle? y = some h := by
  cases ended : (act s.handle? st s.world).result with
  | error e => rwa [step_of_error ended] at found
  | ok made =>
      obtain ⟨a, move⟩ := made
      rw [kept_of_ok ended] at other
      rw [step_of_ok ended] at found
      exact Move.getElem?_of_apply other found

theorem handle_of_kept {st : Step} {y : String} (kept : st.kept s = some y) :
    ∃ a h, (act s.handle? st s.world).result = .ok (a, .keep (some y) h) ∧
      (Session.step st s).state.handle? y = some h := by
  cases ended : (act s.handle? st s.world).result with
  | error e => cases (kept_of_error ended).symm.trans kept
  | ok made =>
      obtain ⟨a, move⟩ := made
      obtain ⟨h, rfl⟩ := Move.exists_of_under ((kept_of_ok ended).symm.trans kept)
      rw [step_of_ok ended]
      exact ⟨a, h, rfl, Move.getElem?_apply_keep h⟩

end Steps

/-- A session with what is to be known of clones: the number of the step that made the handle under
a name, or that made what this is a clone of. -/
structure History where
  session : Session
  origin : String → Nat
  steps : Nat

/-- The name of the save that a step clones. -/
def Step.cloned? : Step → Option String
  | .duplicate on _ => some on
  | _ => none

/-- A clone is what it was cloned from. -/
theorem handle_of_cloned {st : Step} {s : Session} {on : String} {a : Answer}
    {under : Option String} {h : Held} (cloned : st.cloned? = some on)
    (ended : (act s.handle? st s.world).result = .ok (a, .keep under h)) :
    s.handle? on = some h := by
  cases st with
  | duplicate on' under' =>
      cases cloned
      cases asked : (s.handle? on).bind Held.save? with
      | none =>
          rw [act, withHeld, asked] at ended
          cases ended
      | some save =>
          rw [act, withHeld, asked] at ended
          cases ended
          obtain ⟨h, found, eq⟩ := Option.bind_eq_some_iff.mp asked
          rw [found, Held.eq_save eq]
  | _ => cases cloned

namespace History

def start (disk : Disk) : History :=
  ⟨Session.start disk, fun _ => 0, 0⟩

/-- The history after one more step. -/
def next (l : History) (st : Step) : History where
  session := (step st l.session).state
  origin y := if st.kept l.session = some y then st.cloned?.elim l.steps l.origin else l.origin y
  steps := l.steps + 1

/-- What is held under both names goes back to one step. -/
def Clones (l : History) (a b : String) : Prop :=
  (l.session.handle? a).isSome ∧ (l.session.handle? b).isSome ∧ l.origin a = l.origin b

/-- The second steps are the first ones, but for the clone that each of them works on. A handle is
not released in place of another. -/
inductive Exchanged : History → List Step → List Step → Prop
  | nil (l : History) : Exchanged l [] []
  | cons {l : History} {st : Step} {rest rest' : List Step} (f : String → String)
      (clones : ∀ y ∈ st.operands, f y = y ∨ l.Clones y (f y))
      (fixed : ∀ y, st.released? = some y → f y = y) (later : Exchanged (l.next st) rest rest') :
      Exchanged l (st :: rest) (st.mapOperands f :: rest')

/-- Only one handle goes back to each step. -/
def Sound (l : History) : Prop :=
  ∃ made : Nat → Held, ∀ y h, l.session.handle? y = some h →
    l.origin y < l.steps ∧ made (l.origin y) = h

theorem sound_start (disk : Disk) : (start disk).Sound :=
  ⟨fun _ => .list [], fun y h found => by cases found⟩

theorem Sound.handle_eq {l : History} (sound : l.Sound) {a b : String} (clones : l.Clones a b) :
    l.session.handle? b = l.session.handle? a := by
  obtain ⟨made, sound⟩ := sound
  obtain ⟨held, held', same⟩ := clones
  obtain ⟨h, found⟩ := Option.isSome_iff_exists.mp held
  obtain ⟨h', found'⟩ := Option.isSome_iff_exists.mp held'
  rw [found, found', ← (sound a h found).2, ← (sound b h' found').2, same]

section Origin

variable {l : History} {st : Step} {y : String}

theorem origin_of_kept (kept : st.kept l.session = some y) :
    (l.next st).origin y = st.cloned?.elim l.steps l.origin :=
  if_pos kept

theorem origin_of_other (other : st.kept l.session ≠ some y) :
    (l.next st).origin y = l.origin y :=
  if_neg other

end Origin

/-- What a step keeps is new, or a clone. By cases on the name: a name that nothing is kept under
keeps its handle and its origin. -/
theorem Sound.next {l : History} (sound : l.Sound) (st : Step) : (l.next st).Sound := by
  obtain ⟨made, sound⟩ := sound
  have kept_out (made' : Nat → Held) (same : ∀ n < l.steps, made' n = made n) (y : String)
      (h : Held) (found : (l.next st).session.handle? y = some h)
      (other : st.kept l.session ≠ some y) :
      (l.next st).origin y < l.steps + 1 ∧ made' ((l.next st).origin y) = h := by
    obtain ⟨past, eq⟩ := sound y h (handle_of_step other found)
    rw [origin_of_other other]
    exact ⟨Nat.lt_succ_of_lt past, (same _ past).trans eq⟩
  cases kept : st.kept l.session with
  | none =>
      exact ⟨made, fun y h found => kept_out made (fun _ _ => rfl) y h found (by rw [kept]; nofun)⟩
  | some u =>
      obtain ⟨a, new, ended, here⟩ := handle_of_kept kept
      have same (n : Nat) (past : n < l.steps) : Function.update made l.steps new n = made n :=
        Function.update_of_ne (Nat.ne_of_lt past) new made
      -- The step's own number is free for what is new; for a clone it is not needed.
      refine ⟨Function.update made l.steps new, fun y h found => ?_⟩
      by_cases named : st.kept l.session = some y
      · cases kept.symm.trans named
        cases here.symm.trans found
        rw [origin_of_kept named]
        cases cloned : st.cloned? with
        | none => exact ⟨Nat.lt_succ_self _, Function.update_self ..⟩
        | some on =>
            obtain ⟨past, eq⟩ := sound on new (handle_of_cloned cloned ended)
            exact ⟨Nat.lt_succ_of_lt past, (same _ past).trans eq⟩
      · exact kept_out _ same y h found named

/-- By induction on the exchange, with the history sound at each step. -/
theorem Exchanged.run {l : History} {steps steps' : List Step}
    (exchanged : l.Exchanged steps steps') (sound : l.Sound) :
    Session.run steps' l.session = Session.run steps l.session := by
  induction exchanged with
  | nil l => rfl
  | @cons l st rest rest' f clones fixed later ih =>
      have same : act l.session.handle? (st.mapOperands f) = act l.session.handle? st := by
        refine act_mapOperands (fun y mem => ?_) fixed
        rcases clones y mem with eq | clones
        · rw [eq]
        · exact sound.handle_eq clones
      have first : Session.step (st.mapOperands f) l.session = Session.step st l.session := by
        simp only [Session.step, Act.get_bind, same]
      have later : Session.run rest' (l.next st).session = Session.run rest (l.next st).session :=
        ih (sound.next st)
      simp only [Session.run, first]
      exact congrArg _ later

end History

theorem length_run (steps : List Step) (s : Session) :
    (Session.run steps s).length = steps.length := by
  induction steps generalizing s with
  | nil => rfl
  | cons st rest ih => exact congrArg (· + 1) (ih _)

/-- What the steps of a session come to, but for the release of a handle that no later step works
on, is what they come to without that release; so is what they come to after any number of such
releases. And each step comes to the same on any clone of the save that it works on. -/
theorem handles_independent :
    (∀ (s : Session) (before after : List Step) (x : String),
      Avoids (· = x) after (reached (before ++ [.release x]) s) →
      ((Session.run (before ++ .release x :: after) s).map Prod.fst).eraseIdx before.length =
        (Session.run (before ++ after) s).map Prod.fst) ∧
    (∀ (s : Session) (gone : List String) (after : List Step),
      Avoids (· ∈ gone) after (reached (gone.map .release) s) →
      (Session.run after (reached (gone.map .release) s)).map Prod.fst =
        (Session.run after s).map Prod.fst) ∧
    ∀ (disk : Disk) (steps steps' : List Step), History.Exchanged (.start disk) steps steps' →
      Session.run steps' (start disk) = Session.run steps (start disk) := by
  refine ⟨fun s before after x avoids => ?_, fun s gone after avoids => ?_,
    fun disk steps steps' exchanged => exchanged.run (History.sound_start disk)⟩
  · rw [reached_append] at avoids
    have same : (Session.run after (reached before s)).map Prod.fst =
        (Session.run after (Session.step (.release x) (reached before s)).state).map Prod.fst :=
      (agreeOff_release (reached before s) x).run avoids
    have length : ((Session.run before s).map Prod.fst).length = before.length := by
      rw [List.length_map, length_run]
    rw [run_append, run_append, List.map_append, List.map_append, same,
      List.eraseIdx_append_of_length_le (Nat.le_of_eq length), length, Nat.sub_self]
    rfl
  · exact ((agreeOff_releases s gone).run avoids).symm

/-- A root directory is listed after its save was released, and after the clone was released too. -/
theorem handles_independent_nested :
    let opened : List Step := [.openExtracted ⟨[0x63]⟩ (some "s"), .duplicate "s" (some "t"),
      .openRoot "s" (some "d")]
    let after : List Step := [.list "d" .directory (some "l"), .names "l"]
    let s := start Extracted.nestedDisk
    let listed := reached (after.take 1) (reached (["s", "t"].map .release) (reached opened s))
    Avoids (· = "s") after (reached (opened ++ [.release "s"]) s) ∧
      Avoids (· ∈ ["s", "t"]) after (reached (["s", "t"].map .release) (reached opened s)) ∧
      History.Exchanged (.start Extracted.nestedDisk) (opened ++ [.text "s"])
        (opened ++ [.text "t"]) ∧
      ((Session.run (opened ++ .release "s" :: after) s).map Prod.fst).eraseIdx 3 =
        (Session.run (opened ++ after) s).map Prod.fst ∧
      (Session.run after (reached (["s", "t"].map .release) (reached opened s))).map Prod.fst =
        (Session.run after (reached opened s)).map Prod.fst ∧
      Session.run (opened ++ [.text "t"]) s = Session.run (opened ++ [.text "s"]) s ∧
      (listed.handle? "l").isSome := by
  intro opened after s listed
  have one : Avoids (· = "s") after (reached (opened ++ [.release "s"]) s) :=
    avoids_of_operands (by decide)
  have both : Avoids (· ∈ ["s", "t"]) after
      (reached (["s", "t"].map .release) (reached opened s)) :=
    avoids_of_operands (by decide)
  have exchanged : History.Exchanged (.start Extracted.nestedDisk) (opened ++ [.text "s"])
      (opened ++ [.text "t"]) := by
    have same (l : History) (st : Step) : ∀ y ∈ st.operands, id y = y ∨ l.Clones y (id y) :=
      fun _ _ => .inl rfl
    refine .cons id (same _ _) nofun (.cons id (same _ _) nofun (.cons id (same _ _) nofun
      (.cons (fun _ => "t") (List.forall_mem_singleton.mpr (.inr ?_)) nofun (.nil _))))
    exact ⟨by decide +kernel, by decide +kernel, by decide +kernel⟩
  exact ⟨one, both, exchanged, handles_independent.1 s opened after "s" one,
    handles_independent.2.1 (reached opened s) ["s", "t"] after both,
    handles_independent.2.2 Extracted.nestedDisk _ _ exchanged, by decide +kernel⟩

end Session

end SaveContainer
