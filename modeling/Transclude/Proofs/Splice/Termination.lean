import Transclude.Proofs.Splice.Agenda

/-!
# Edits that end

An edit goes into blocks that its answers bring up, so it need not end.  It does if the blocks that
it goes into are never higher than the block that they replace: then everything that gets on the
agenda in place of a block is less high than that block, however many new blocks there are.

Main results:

- Definition {lit}`Splice.Steady`: along a run no block is replaced by higher ones to go into.
- Theorem {lit}`Splice.exists_run_editWithin`: a steady edit of low blocks ends, in the same way
  within every bound that is large enough.
- Theorem {lit}`Splice.edit_ends`: an edit that never goes into higher blocks ends.
- Theorem {lit}`Splice.wrapping_never_ends`: an edit that wraps each block and goes into the
  wrapping does not.
-/

namespace Transclude

namespace Splice

variable {σ ε : Type}

section Rank

variable (cross : Bool) (edit : Block → ExceptT ε (StateM σ) Edit) (rank : Block → Nat)

/-- Whenever a block is asked about on the way from an agenda, the blocks that are gone into for it
do not rank higher. -/
def Steady (us : List Block) (s : σ) : Prop :=
  ∀ calls b rest s₁ answer s₂, Asks cross edit us s calls (.ok (b :: rest)) s₁ →
    StateT.run (edit b).run s₁ = (.ok answer, s₂) → ∀ c ∈ answer.entered b, rank c ≤ rank b

/-- A steady agenda of blocks that rank below a number. -/
structure Level (n : Nat) (us : List Block) (s : σ) : Prop where
  low : ∀ b ∈ us, rank b < n
  steady : Steady cross edit rank us s

/-- An edit that writes down its calls next to one that does not.  From a level agenda both end
alike, and what is written down is how the agenda is used up. -/
def Follows (n : Nat) {α : Type} (us : List Block) (x : Asking (σ × List (Call ε)) ε α)
    (y : Asking σ ε α) : Prop :=
  ∀ s, Level cross edit rank n us s → ∀ calls,
    ∃ (result : Except ε α) (s' : σ) (new : List (Call ε)),
    run x (s, calls) = (result.map some, s', calls ++ new) ∧
    run y s = (result.map some, s') ∧ Asks cross edit us s new (result.map fun _ => []) s'

variable {cross edit rank} {n : Nat} {us vs : List Block} {s s' : σ}

theorem Steady.front (h : Steady cross edit rank (us ++ vs) s) :
    Steady cross edit rank us s := by
  intro calls b rest s₁ answer s₂ hasks
  exact h calls b (rest ++ vs) s₁ answer s₂ (hasks.append vs)

theorem Steady.rest {calls : List (Call ε)} (h : Steady cross edit rank us s)
    (hasks : Asks cross edit us s calls (.ok vs) s') : Steady cross edit rank vs s' := by
  intro calls' b rest s₁ answer s₂ hasks'
  exact h (calls ++ calls') b rest s₁ answer s₂ (hasks.trans hasks')

/-- What gets on the agenda in place of a block ranks below it. -/
theorem Level.step (hrank : ∀ b, ∀ c ∈ b.children cross, rank c < rank b) {b : Block}
    {answer : Edit} (h : Level cross edit rank n (b :: vs) s)
    (hanswer : StateT.run (edit b).run s = (.ok answer, s')) :
    (∀ c ∈ answer.entered b, rank c < n) ∧
      Level cross edit rank n (nextUp cross b answer ++ vs) s' := by
  have hentered : ∀ c ∈ answer.entered b, rank c < n := fun c hc =>
    Nat.lt_of_le_of_lt (h.steady [] b vs s answer s' (.none _ s) hanswer c hc) (h.low b (.head _))
  refine ⟨hentered, fun c hc => ?_, h.steady.rest (.answered hanswer (.none _ s'))⟩
  rcases List.mem_append.1 hc with hc | hc
  · obtain ⟨d, hd, hc⟩ := List.mem_flatMap.1 hc
    exact (hrank d c hc).trans (hentered d hd)
  · exact h.low c (.tail b hc)

/-- A run from a level agenda goes from call to call, as long as low blocks can be gone into. -/
theorem agendaClosed_follows (hrank : ∀ b, ∀ c ∈ b.children cross, rank c < rank b)
    {below : Block → Asking (σ × List (Call ε)) ε Block} {below' : Block → Asking σ ε Block}
    (hbelow : ∀ c, rank c < n →
      Follows cross edit rank n (c.children cross) (below c) (below' c)) :
    AgendaClosed (m := Asking (σ × List (Call ε)) ε) (n := Asking σ ε) cross
      (fun c => rank c < n) (fun _ => Follows cross edit rank n)
      (fun b => OptionT.lift (recorded edit b)) (fun b => OptionT.lift (edit b)) below below' where
  pure a s _ calls := by
    refine ⟨.ok a, s, [], ?_, rfl, .none [] s⟩
    rw [run_pure, List.append_nil]
    rfl
  bind := by
    intro α β us vs x y f g hxy hfg s hlevel calls
    have hfront : Level cross edit rank n us s :=
      ⟨fun b hb => hlevel.low b (List.mem_append_left vs hb), hlevel.steady.front⟩
    obtain ⟨e | a, s₁, new, hx, hy, hasks⟩ := hxy s hfront calls
    · refine ⟨.error e, s₁, new, ?_, ?_, hasks.append vs⟩
      · rw [run_bind, hx]
        rfl
      · rw [run_bind, hy]
        rfl
    · have hrest : Level cross edit rank n vs s₁ :=
        ⟨fun b hb => hlevel.low b (List.mem_append_right us hb),
          hlevel.steady.rest (hasks.append vs)⟩
      obtain ⟨result, s₂, new', hf, hg, hasks'⟩ := hfg a s₁ hrest (calls ++ new)
      refine ⟨result, s₂, new ++ new', ?_, ?_, (hasks.append vs).trans hasks'⟩
      · rw [run_bind, hx, ← List.append_assoc]
        exact hf
      · rw [run_bind, hy]
        exact hg
  ask := by
    intro β b vs f g hfg s hlevel calls
    rw [run_recorded_bind, run_edit_bind]
    rcases hanswer : StateT.run (edit b).run s with ⟨e | answer, s₁⟩
    · exact ⟨.error e, s₁, [(b, .error e)], rfl, rfl, .failed hanswer⟩
    · obtain ⟨hlow, hnext⟩ := hlevel.step hrank hanswer
      obtain ⟨result, s₂, new, hf, hg, hasks⟩ :=
        hfg answer hlow s₁ hnext (calls ++ [(b, .ok answer)])
      refine ⟨result, s₂, (b, .ok answer) :: new, ?_, hg, .answered hanswer hasks⟩
      apply hf.trans
      rw [List.append_assoc, List.singleton_append]
  below := hbelow

/-- Blocks that rank below a number are gone into within that number as the bound, and within any
larger one. -/
theorem follows_childrenWithin (hrank : ∀ b, ∀ c ∈ b.children cross, rank c < rank b) {k : Nat}
    (hk : n ≤ k) (c : Block) (hc : rank c < n) :
    Follows cross edit rank n (c.children cross) (childrenWithin? cross (recorded edit) n c)
      (childrenWithin? cross edit k c) := by
  induction n generalizing k c with
  | zero => exact absurd hc (Nat.not_lt_zero _)
  | succ n ih =>
    obtain ⟨k, rfl⟩ : ∃ l, k = l + 1 := ⟨k - 1, by omega⟩
    have hchildren := blockChildren_follows (m := Asking (σ × List (Call ε)) ε)
      (n := Asking σ ε) (agendaClosed_follows hrank (ih (Nat.le_of_succ_le_succ hk))) c
    -- The children rank below the smaller number too.
    intro s hlevel
    exact hchildren s ⟨fun d hd => Nat.lt_of_lt_of_le (hrank c d hd) (Nat.le_of_lt_succ hc),
      hlevel.steady⟩

/-- A steady edit of blocks that rank below a number ends within that number as the bound, and
within any larger one. -/
theorem follows_editWithin (hrank : ∀ b, ∀ c ∈ b.children cross, rank c < rank b) {k : Nat}
    (hk : n ≤ k) (bs : List Block) :
    Follows cross edit rank n bs (editWithin? n cross (recorded edit) bs)
      (editWithin? k cross edit bs) :=
  blockContent_follows (m := Asking (σ × List (Call ε)) ε) (n := Asking σ ε)
    (agendaClosed_follows hrank (follows_childrenWithin hrank hk)) bs

/-- From a level agenda an edit ends in the same way within every bound that is large enough, and
uses up its agenda. -/
theorem exists_run_editWithin (hrank : ∀ b, ∀ c ∈ b.children cross, rank c < rank b)
    {bs : List Block} (h : Level cross edit rank n bs s) :
    ∃ (result : Except ε (List Block)) (calls : List (Call ε)) (s' : σ),
      Asks cross edit bs s calls (result.map fun _ => []) s' ∧
      ∀ bound, n ≤ bound →
        run (editWithin? bound cross edit bs) s = (result.map some, s') ∧
        run (editWithin? bound cross (recorded edit) bs) (s, []) =
          (result.map some, s', calls) := by
  have hused : ∀ (result : Except ε (List Block)) b rest,
      (result.map fun _ => ([] : List Block)) ≠ .ok (b :: rest) := by
    intro result b rest
    cases result <;> simp [Except.map]
  obtain ⟨result, s', calls, hleast, -, hasks⟩ :=
    follows_editWithin hrank (Nat.le_refl n) bs s h []
  refine ⟨result, calls, s', hasks, fun bound hbound => ?_⟩
  -- The run that writes down its calls within the least bound goes with the plain run within any.
  obtain ⟨result₁, s₁, calls₁, hleast₁, hplain₁, -⟩ :=
    follows_editWithin hrank hbound bs s h []
  obtain ⟨hresult₁, hs₁, -⟩ : result₁.map some = result.map some ∧ s₁ = s' ∧ calls₁ = calls := by
    simpa using hleast₁.symm.trans hleast
  rw [hresult₁, hs₁] at hplain₁
  have hlevel : Level cross edit rank bound bs s :=
    ⟨fun b hb => Nat.lt_of_lt_of_le (h.low b hb) hbound, h.steady⟩
  obtain ⟨result₂, s₂, calls₂, hrecorded, hplain₂, hasks₂⟩ :=
    follows_editWithin hrank (Nat.le_refl bound) bs s hlevel []
  obtain ⟨hresult₂, hs₂⟩ := Prod.mk.inj (hplain₂.symm.trans hplain₁)
  obtain ⟨hcalls₂, -, -⟩ := hasks₂.unique hasks (hused result₂) (hused result)
  refine ⟨hplain₁, ?_⟩
  rw [hrecorded, hresult₂, hs₂, hcalls₂, List.nil_append]

end Rank

/-! ## Height -/

/-- An edit ends if the blocks that it goes into are never higher than the block that they stand
for.  It asks about finitely many blocks, and any bound on going into new blocks that is above the
height of the first blocks makes no difference to it.  Every block that is asked about is one of
the first ones or a child of a block that is gone into for an earlier one; the new blocks
themselves are not asked about. -/
theorem edit_ends (cross : Bool) (edit : Block → ExceptT ε (StateM σ) Edit) (bs : List Block)
    (s : σ)
    (hedit : ∀ calls b rest s₁ answer s₂, Asks cross edit bs s calls (.ok (b :: rest)) s₁ →
      StateT.run (edit b).run s₁ = (.ok answer, s₂) →
      ∀ c ∈ answer.entered b, c.height cross ≤ b.height cross) :
    ∃ (result : Except ε (List Block)) (calls : List (Call ε)) (s' : σ),
      Asks cross edit bs s calls (result.map fun _ => []) s' ∧
      (∀ bound, Block.heightOf cross bs < bound →
        run (editWithin? bound cross edit bs) s = (result.map some, s') ∧
        run (editWithin? bound cross (recorded edit) bs) (s, []) =
          (result.map some, s', calls)) ∧
      ∃ unseen, (calls.map Prod.fst ++ unseen).Perm
          (bs ++ calls.flatMap (Call.nextUp cross)) ∧
        ∀ bs', result = .ok bs' → unseen = [] := by
  have hlevel : Level cross edit (Block.height cross) (Block.heightOf cross bs + 1) bs s :=
    ⟨fun b hb => Nat.lt_succ_of_le (Block.height_le_heightOf hb), hedit⟩
  obtain ⟨result, calls, s', hasks, hbounds⟩ :=
    exists_run_editWithin (fun _ _ => Block.height_lt_of_mem_children) hlevel
  obtain ⟨unseen, hperm, hleft⟩ := hasks.perm
  refine ⟨result, calls, s', hasks, hbounds, unseen, hperm, ?_⟩
  rintro bs' rfl
  exact hleft [] rfl

/-- An edit that counts its calls and goes into two copies of each division. -/
def doubled (b : Block) : ExceptT String (StateM Nat) Edit := do
  modify (· + 1)
  match b with
  | .div _ _ => return .descend [b, b]
  | _ => return .keep

/-- The blocks that the doubling edit goes into are copies of the one that they stand for. -/
theorem entered_of_doubled (b : Block) (s : Nat) (answer : Edit) (s' : Nat)
    (h : StateT.run (doubled b).run s = (.ok answer, s')) : ∀ c ∈ answer.entered b, c = b := by
  have hcases : answer = .keep ∨ answer = .descend [b, b] := by
    cases b with
    | div => exact .inr (Except.ok.inj (Prod.mk.inj h).1).symm
    | _ => exact .inl (Except.ok.inj (Prod.mk.inj h).1).symm
  rintro c hc
  rcases hcases with rfl | rfl <;> simpa [Edit.entered] using hc

/-- The doubling edit grows what it is given and ends: of a division in a division it makes two
with two in each, after one call for the outer division and one for each copy of the inner. -/
theorem edit_ends_doubled :
    let bs := [.div .empty [.div .empty []]]
    (∀ calls b rest s₁ answer s₂, Asks false doubled bs 0 calls (.ok (b :: rest)) s₁ →
      StateT.run (doubled b).run s₁ = (.ok answer, s₂) →
      ∀ c ∈ answer.entered b, c.height false ≤ b.height false) ∧
    ∃ (result : Except String (List Block)) (calls : List (Call String)) (s' : Nat),
      Asks false doubled bs 0 calls (result.map fun _ => []) s' ∧
      run (editWithin? 3 false doubled bs) 0 = (result.map some, s') ∧
      (calls.map Prod.fst).Perm (bs ++ calls.flatMap (Call.nextUp false)) ∧
      result = .ok [.div .empty [.div .empty [], .div .empty []],
        .div .empty [.div .empty [], .div .empty []]] ∧
      s' = 3 := by
  intro bs
  have hedit : ∀ calls b rest s₁ answer s₂, Asks false doubled bs 0 calls (.ok (b :: rest)) s₁ →
      StateT.run (doubled b).run s₁ = (.ok answer, s₂) →
      ∀ c ∈ answer.entered b, c.height false ≤ b.height false := by
    intro _ b _ s₁ answer s₂ _ hanswer c hc
    rw [entered_of_doubled b s₁ answer s₂ hanswer c hc]
  obtain ⟨result, calls, s', hasks, hbounds, unseen, hperm, hunseen⟩ :=
    edit_ends false doubled bs 0 hedit
  have hrun := (hbounds 3 (by decide)).1
  have hruns : run (editWithin? 3 false doubled bs) 0 =
      (.ok (some [.div .empty [.div .empty [], .div .empty []],
        .div .empty [.div .empty [], .div .empty []]]), 3) := rfl
  obtain ⟨hresult, rfl⟩ := Prod.mk.inj (hruns.symm.trans hrun)
  cases result with
  | error e => cases hresult
  | ok bs' =>
    obtain rfl := Option.some.inj (Except.ok.inj hresult)
    obtain rfl := hunseen _ rfl
    exact ⟨hedit, .ok _, calls, 3, hasks, hruns, by simpa using hperm, rfl, rfl⟩

/-- An edit that wraps each block in a division and goes into the division does not end: it is
asked about the same block again, and no bound is enough. -/
theorem wrapping_never_ends {m : Type → Type} [Monad m] [LawfulMonad m] (cross : Bool) (b : Block)
    (bs : List Block) (bound : Nat) :
    (editWithin? bound cross (fun b => (pure (.descend [.div .empty [b]]) : m Edit))
      (b :: bs)).run = pure none := by
  have hwrapped : ∀ b, childrenWithin? cross
      (fun b => (pure (.descend [.div .empty [b]]) : m Edit)) bound (.div .empty [b]) =
        failure := by
    induction bound with
    | zero => exact fun b => rfl
    | succ bound ih =>
      intro b
      simp [childrenWithin?, blockChildren, blockContent, ih]
  simp [editWithin?, blockContent, hwrapped]

end Splice

end Transclude
