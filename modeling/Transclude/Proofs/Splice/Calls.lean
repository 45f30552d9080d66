import Transclude.Proofs.Splice.Visits
import Transclude.Proofs.Walk.Listing

/-!
# An edit asks in the order of the walk

An edit with a state that may fail at any block is run next to itself with every question and
answer written down.  The blocks it asks about are those of a walk with the same crossing, up to
and including the first one at which it fails.

Main results:

- Definition {lit}`Splice.recorded`: an edit that writes down its calls.
- Definition {lit}`Splice.Accounted`: calls that account for a sequence of blocks, whole or up
  to the first failure.
- Theorem {lit}`Splice.calls_follow_walk`: the calls of an edit account for the walk, and an
  edit that keeps everything gives its blocks back.
-/

namespace Transclude

namespace Splice

variable {σ ε : Type}

/-! ## Runs -/

/-- The effects of an edit that has a state and may fail; there is no result where new blocks
are gone into too deep. -/
abbrev Asking (σ ε : Type) := OptionT (ExceptT ε (StateM σ))

/-- The outcome of an effect from a state, and the state after it. -/
def run {α : Type} (x : Asking σ ε α) (s : σ) : Except ε (Option α) × σ :=
  StateT.run (ExceptT.run (OptionT.run x)) s

theorem run_pure {α : Type} (a : α) (s : σ) :
    run (pure a : Asking σ ε α) s = (.ok (some a), s) :=
  rfl

/-- What comes after a result goes on from the state it leaves; nothing comes after a failure. -/
theorem run_bind {α β : Type} (x : Asking σ ε α)
    (f : α → Asking σ ε β) (s : σ) :
    run (x >>= f) s =
      match run x s with
      | (.ok (some a), s') => run (f a) s'
      | (.ok none, s') => (.ok none, s')
      | (.error e, s') => (.error e, s') := by
  cases h : run x s with
  | mk outcome s' =>
    simp only [run, StateT.run, ExceptT.run, OptionT.run] at h ⊢
    simp only [bind, OptionT.bind, OptionT.mk, ExceptT.bind, ExceptT.mk, StateT.bind, h]
    cases outcome with
    | error e => rfl
    | ok result => cases result <;> rfl

/-! ## Calls -/

/-- A block that an edit is asked about, and what comes of it. -/
abbrev Call (ε : Type) := Block × Except ε Edit

/-- The edit that also writes down the block it is asked about and what it answers. -/
def recorded (edit : Block → ExceptT ε (StateM σ) Edit) (b : Block) :
    ExceptT ε (StateM (σ × List (Call ε))) Edit :=
  ExceptT.mk fun (s, calls) =>
    let (answer, s') := StateT.run (edit b).run s
    (answer, s', calls ++ [(b, answer)])

/-- Asking an edit gives its answer, or fails as it does. -/
theorem run_lift (x : ExceptT ε (StateM σ) Edit) (s : σ) :
    run (OptionT.lift x) s =
      match StateT.run x.run s with
      | (.ok answer, s') => (.ok (some answer), s')
      | (.error e, s') => (.error e, s') := by
  cases h : StateT.run x.run s with
  | mk outcome s' =>
    simp only [StateT.run, ExceptT.run] at h
    simp only [run, OptionT.run, OptionT.lift, OptionT.mk, StateT.run, ExceptT.run, bind,
      ExceptT.bind, ExceptT.mk, StateT.bind, h]
    cases outcome <;> rfl

/-- What comes after an answer goes on from the state that the edit leaves. -/
theorem run_edit_bind {β : Type} (edit : Block → ExceptT ε (StateM σ) Edit) (b : Block)
    (f : Edit → Asking σ ε β) (s : σ) :
    run (OptionT.lift (edit b) >>= f) s =
      match StateT.run (edit b).run s with
      | (.ok answer, s') => run (f answer) s'
      | (.error e, s') => (.error e, s') := by
  rw [run_bind, run_lift]
  rcases StateT.run (edit b).run s with ⟨answer | e, s'⟩ <;> rfl

/-- Asking the recording edit does what asking the edit does, and writes down one call. -/
theorem run_recorded_bind {β : Type} (edit : Block → ExceptT ε (StateM σ) Edit) (b : Block)
    (f : Edit → Asking (σ × List (Call ε)) ε β) (s : σ)
    (calls : List (Call ε)) :
    run (OptionT.lift (recorded edit b) >>= f) (s, calls) =
      match StateT.run (edit b).run s with
      | (.ok answer, s') => run (f answer) (s', calls ++ [(b, .ok answer)])
      | (.error e, s') => (.error e, s', calls ++ [(b, .error e)]) := by
  have hrecorded : StateT.run (recorded edit b).run (s, calls) =
      ((StateT.run (edit b).run s).1, (StateT.run (edit b).run s).2,
        calls ++ [(b, (StateT.run (edit b).run s).1)]) := rfl
  rw [run_edit_bind, hrecorded]
  rcases StateT.run (edit b).run s with ⟨answer | e, s'⟩ <;> rfl

/-- Calls account for a sequence of blocks: all of them are asked about and answered, or the
edit fails at one of them and none of the later ones is asked about. -/
inductive Accounted {α : Type} (bs : List Block) : List (Call ε) → Except ε (Option α) → Prop
  | whole (calls : List (Call ε)) (a : α) (hblocks : calls.map Prod.fst = bs)
      (hanswered : ∀ call ∈ calls, ∃ answer, call.2 = .ok answer) :
      Accounted bs calls (.ok (some a))
  | failed (earlier : List (Call ε)) (b : Block) (later : List Block) (e : ε)
      (hblocks : earlier.map Prod.fst ++ b :: later = bs)
      (hanswered : ∀ call ∈ earlier, ∃ answer, call.2 = .ok answer) :
      Accounted bs (earlier ++ [(b, .error e)]) (.error e)

namespace Accounted

/-- Calls that end in a failure account for any longer sequence too. -/
theorem append_of_failed {α β : Type} {us : List Block} {calls : List (Call ε)} {e : ε}
    (h : Accounted (α := α) us calls (.error e)) (vs : List Block) :
    Accounted (α := β) (us ++ vs) calls (.error e) := by
  cases h with
  | failed earlier b later _ hblocks hanswered =>
    refine .failed earlier b (later ++ vs) e ?_ hanswered
    rw [← hblocks, List.append_assoc, List.cons_append]

/-- Answered calls followed by calls that account for the blocks after them. -/
theorem append_of_whole {α β : Type} {us vs : List Block} {calls calls' : List (Call ε)} {a : α}
    {outcome : Except ε (Option β)} (h : Accounted us calls (.ok (some a)))
    (h' : Accounted vs calls' outcome) : Accounted (us ++ vs) (calls ++ calls') outcome := by
  cases h with
  | whole _ _ hblocks hanswered =>
    cases h' with
    | whole _ b hblocks' hanswered' =>
      refine .whole (calls ++ calls') b ?_ fun call hcall => ?_
      · rw [List.map_append, hblocks, hblocks']
      · rcases List.mem_append.1 hcall with hcall | hcall
        · exact hanswered call hcall
        · exact hanswered' call hcall
    | failed earlier b later e hblocks' hanswered' =>
      rw [← List.append_assoc]
      refine .failed (calls ++ earlier) b later e ?_ fun call hcall => ?_
      · rw [List.map_append, List.append_assoc, hblocks, hblocks']
      · rcases List.mem_append.1 hcall with hcall | hcall
        · exact hanswered call hcall
        · exact hanswered' call hcall

end Accounted

/-! ## Runs of a recorded edit -/

/-- An effect next to itself with its calls written down: both end alike and in the same state,
and the calls account for some blocks. -/
def Records {α : Type} (bs : List Block)
    (x : Asking (σ × List (Call ε)) ε α)
    (y : Asking σ ε α) : Prop :=
  ∀ s calls, ∃ outcome s' new, run y s = (outcome, s') ∧
    run x (s, calls) = (outcome, s', calls ++ new) ∧ Accounted bs new outcome

/-- Edits that give suitable answers are recorded call by call. -/
theorem visitClosed_records (edit : Block → ExceptT ε (StateM σ) Edit)
    (hedit : ∀ b s answer s', StateT.run (edit b).run s = (.ok answer, s') →
      Edit.Suits b answer) :
    VisitClosed (m := Asking (σ × List (Call ε)) ε) (n := Asking σ ε) (fun _ => Records)
      (fun b => OptionT.lift (recorded edit b)) (fun b => OptionT.lift (edit b)) where
  pure a s calls := by
    refine ⟨.ok (some a), s, [], rfl, ?_, .whole [] a rfl (by simp)⟩
    rw [run_pure, List.append_nil]
  bind := by
    intro α β us vs x y f g hxy hfg s calls
    obtain ⟨outcome, s₁, new, hy, hx, hnew⟩ := hxy s calls
    rcases outcome with e | _ | a
    · refine ⟨.error e, s₁, new, ?_, ?_, hnew.append_of_failed vs⟩
      · rw [run_bind, hy]
      · rw [run_bind, hx]
    · cases hnew
    · obtain ⟨outcome, s₂, new', hg, hf, hnew'⟩ := hfg a s₁ (calls ++ new)
      refine ⟨outcome, s₂, new ++ new', ?_, ?_, hnew.append_of_whole hnew'⟩
      · rw [run_bind, hy]
        exact hg
      · rw [run_bind, hx, ← List.append_assoc]
        exact hf
  ask := by
    intro β b vs f g hfg s calls
    rw [run_edit_bind]
    simp only [run_recorded_bind]
    rcases hanswer : StateT.run (edit b).run s with ⟨e | answer, s₁⟩
    · exact ⟨.error e, s₁, [(b, .error e)], rfl, rfl, .failed [] b vs e rfl (by simp)⟩
    · have hfg' := hfg answer (hedit b s answer s₁ hanswer)
      obtain ⟨outcome, s₂, new, hg, hf, hnew⟩ := hfg' s₁ (calls ++ [(b, .ok answer)])
      have hasked : Accounted [b] [(b, Except.ok (ε := ε) answer)] (.ok (some ())) :=
        .whole _ () rfl (by simp)
      refine ⟨outcome, s₂, (b, .ok answer) :: new, hg, ?_, hasked.append_of_whole hnew⟩
      apply hf.trans
      rw [List.append_assoc, List.singleton_append]

/-- A recorded effect next to a value that does not ask: if all answers are to keep the block,
the value is the result. -/
def KeepsTo {α : Type} (_bs : List Block)
    (x : Asking (σ × List (Call ε)) ε α) (y : Id α) : Prop :=
  ∀ s calls, ∃ outcome s' new, run x (s, calls) = (outcome, s', calls ++ new) ∧
    ((∀ call ∈ new, call.2 = .ok .keep) → outcome = .ok (some y.run))

/-- As long as every block is kept, an edit does what keeping every block does. -/
theorem visitClosed_keepsTo (edit : Block → ExceptT ε (StateM σ) Edit)
    (hedit : ∀ b s answer s', StateT.run (edit b).run s = (.ok answer, s') →
      Edit.Suits b answer) :
    VisitClosed (m := Asking (σ × List (Call ε)) ε) (n := Id) (fun _ => KeepsTo)
      (fun b => OptionT.lift (recorded edit b)) (fun _ => pure .keep) where
  pure a s calls := by
    refine ⟨.ok (some a), s, [], ?_, fun _ => rfl⟩
    rw [run_pure, List.append_nil]
  bind := by
    intro α β us vs x y f g hxy hfg s calls
    obtain ⟨outcome, s₁, new, hx, hkept⟩ := hxy s calls
    rcases outcome with e | _ | a
    · refine ⟨.error e, s₁, new, ?_, fun hall => ?_⟩
      · rw [run_bind, hx]
      · exact absurd (hkept hall) (by simp)
    · refine ⟨.ok none, s₁, new, ?_, fun hall => ?_⟩
      · rw [run_bind, hx]
      · exact absurd (hkept hall) (by simp)
    · obtain ⟨outcome, s₂, new', hf, hkept'⟩ := hfg a s₁ (calls ++ new)
      refine ⟨outcome, s₂, new ++ new', ?_, fun hall => ?_⟩
      · rw [run_bind, hx, ← List.append_assoc]
        exact hf
      · have ha : a = y.run := by simpa using hkept fun call h => hall call (by simp [h])
        rw [hkept' fun call h => hall call (by simp [h]), ha]
        rfl
  ask := by
    intro β b vs f g hfg s calls
    simp only [run_recorded_bind]
    rcases hanswer : StateT.run (edit b).run s with ⟨e | answer, s₁⟩
    · refine ⟨.error e, s₁, [(b, .error e)], rfl, fun hall => ?_⟩
      exact absurd (hall _ (List.mem_singleton_self _)) (by simp)
    · have hfg' := hfg answer (hedit b s answer s₁ hanswer)
      obtain ⟨outcome, s₂, new, hf, hkept⟩ := hfg' s₁ (calls ++ [(b, .ok answer)])
      refine ⟨outcome, s₂, (b, .ok answer) :: new, ?_, fun hall => ?_⟩
      · apply hf.trans
        rw [List.append_assoc, List.singleton_append]
      · have hkeep : answer = .keep := by simpa using hall (b, .ok answer) (by simp)
        rw [hkept fun call h => hall call (by simp [h]), hkeep]
        rfl

/-! ## The order of the calls -/

/-- An edit with a state, which may fail at any block, asks about the blocks of the walk that
crosses as it does.  If it never fails it asks about all of them; otherwise it fails as the first
call that fails, and that call is the last.  Where all answers are to keep the block, the result
is what the edit was given. -/
theorem calls_follow_walk (bound : Nat) (cross : Bool) (edit : Block → ExceptT ε (StateM σ) Edit)
    (hedit : ∀ b s answer s', StateT.run (edit b).run s = (.ok answer, s') →
      Edit.Suits b answer) (bs : List Block) (s : σ) :
    ∃ outcome s' calls,
      run (editWithin? bound cross edit bs) s = (outcome, s') ∧
      run (editWithin? bound cross (recorded edit) bs) (s, []) = (outcome, s', calls) ∧
      Accounted (Walk.blocks bs cross).toList calls outcome ∧
      ((∀ call ∈ calls, call.2 = .ok .keep) → outcome = .ok (some bs)) := by
  have hrecords := blockContent_related (childrenWithin? cross (recorded edit) bound)
    (childrenWithin? cross edit bound) (visitClosed_records edit hedit) cross bs
  have hkeeps := blockContent_related (childrenWithin? cross (recorded edit) bound) (n := Id) pure
    (visitClosed_keepsTo edit hedit) cross bs
  obtain ⟨outcome, s', calls, hrun, hrecorded, haccounted⟩ := hrecords s []
  obtain ⟨outcome', s'', calls', hrecorded', hkept⟩ := hkeeps s []
  have hsame : (outcome', s'', calls') = (outcome, s', calls) := hrecorded'.symm.trans hrecorded
  simp only [Prod.mk.injEq] at hsame
  obtain ⟨rfl, rfl, rfl⟩ := hsame
  refine ⟨outcome', s'', calls', hrun, hrecorded, ?_, fun hall => ?_⟩
  · rw [Walk.toList_blocks]
    exact haccounted
  · rw [hkept hall, blockContent_keep]
    rfl

/-- An edit that removes blocks without children and fails when its state is used up. -/
def countdown (b : Block) : ExceptT String (StateM Nat) Edit := do
  match ← get with
  | 0 => throw "used up"
  | steps + 1 =>
    set steps
    return if b.isLeaf then .replace [] else .keep

/-- The answers of a countdown suit the blocks. -/
theorem countdown_suits (b : Block) (s : Nat) (answer : Edit) (s' : Nat)
    (h : StateT.run (countdown b).run s = (.ok answer, s')) : Edit.Suits b answer := by
  cases s with
  | zero => cases h
  | succ steps =>
    cases hleaf : b.isLeaf with
    | false =>
      have hrun : StateT.run (countdown b).run (steps + 1) = (.ok .keep, steps) := by
        simp only [countdown, hleaf]
        rfl
      rw [hrun] at h
      cases h
      exact .keep b
    | true =>
      have hrun : StateT.run (countdown b).run (steps + 1) = (.ok (.replace []), steps) := by
        simp only [countdown, hleaf]
        rfl
      rw [hrun] at h
      cases h
      exact .replace b [] hleaf

/-- A countdown from two is asked about a paragraph and about the rule in its note, and fails at
the division after them, before it sees what is in it. -/
theorem calls_follow_walk_countdown :
    let bs := [.para [.emph [.note [.horizontalRule]]], .div .empty [.null]]
    (∀ b s answer s', StateT.run (countdown b).run s = (.ok answer, s') →
      Edit.Suits b answer) ∧
    ∃ outcome s' calls,
      run (editWithin? 0 true countdown bs) 2 = (outcome, s') ∧
      run (editWithin? 0 true (recorded countdown) bs) (2, []) = (outcome, s', calls) ∧
      Accounted (Walk.blocks bs true).toList calls outcome ∧
      ((∀ call ∈ calls, call.2 = .ok .keep) → outcome = .ok (some bs)) :=
  ⟨countdown_suits, calls_follow_walk 0 true countdown countdown_suits _ 2⟩

end Splice

end Transclude
