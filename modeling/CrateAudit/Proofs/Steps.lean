namespace CrateAudit.Steps

variable {ε σ α β : Type}

theorem run_bind (p : ExceptT ε (StateM σ) α) (f : α → ExceptT ε (StateM σ) β) (s : σ) :
    (p >>= f).run.run s =
      match p.run.run s with
      | (.ok a, s') => (f a).run.run s'
      | (.error e, s') => (.error e, s') := by
  rw [ExceptT.run_bind, StateT.run_bind]
  rcases p.run.run s with ⟨e | a, s'⟩
  · rfl
  · rfl

theorem run_tryCatch (p : ExceptT ε (StateM σ) α) (h : ε → ExceptT ε (StateM σ) α) (s : σ) :
    (tryCatch p h).run.run s =
      match p.run.run s with
      | (.ok a, s') => (.ok a, s')
      | (.error e, s') => (h e).run.run s' := by
  change (p.run >>= fun r => match r with
    | .ok a => pure (.ok a)
    | .error e => (h e).run : StateM σ (Except ε α)).run s = _
  rw [StateT.run_bind]
  rcases p.run.run s with ⟨e | a, s'⟩
  · rfl
  · rfl

/-- A run ends well if `A` holds, with a result and a state that `P` relates, and otherwise with the
failure `e`. -/
inductive Ends (A : Prop) (e : ε) (P : α → σ → Prop) : Except ε α × σ → Prop where
  | ok {a : α} {s : σ} (h : A) (hp : P a s) : Ends A e P (.ok a, s)
  | error {s : σ} (h : ¬A) : Ends A e P (.error e, s)

namespace Ends

variable {A B : Prop} {e : ε} {P : α → σ → Prop} {Q : β → σ → Prop}

/-- What follows a step goes on from where the step ended well. -/
theorem bind {p : ExceptT ε (StateM σ) α} {f : α → ExceptT ε (StateM σ) β} {s : σ}
    (hp : Ends A e P (p.run.run s)) (hf : ∀ a s', P a s' → Ends B e Q ((f a).run.run s')) :
    Ends (A ∧ B) e Q ((p >>= f).run.run s) := by
  rw [run_bind]
  generalize p.run.run s = r at hp
  cases hp with
  | @ok a s' hA hP =>
    have h := hf a s' hP
    change Ends (A ∧ B) e Q ((f a).run.run s')
    generalize (f a).run.run s' = r at h
    cases h with
    | ok hB hQ => exact .ok ⟨hA, hB⟩ hQ
    | error hB => exact .error fun h => hB h.2
  | error hA => exact .error fun h => hA h.1

/-- What follows and always ends well adds no condition. -/
theorem bind_ok {p : ExceptT ε (StateM σ) α} {f : α → ExceptT ε (StateM σ) β} {s : σ}
    (hp : Ends A e P (p.run.run s))
    (hf : ∀ a s', P a s' → ∃ b s'', (f a).run.run s' = (.ok b, s'') ∧ Q b s'') :
    Ends A e Q ((p >>= f).run.run s) := by
  rw [run_bind]
  generalize p.run.run s = r at hp
  cases hp with
  | @ok a s' hA hP =>
    obtain ⟨b, s'', hrun, hQ⟩ := hf a s' hP
    change Ends A e Q ((f a).run.run s')
    rw [hrun]
    exact .ok hA hQ
  | error hA => exact .error hA

theorem mono {Q : α → σ → Prop} {r : Except ε α × σ} (hr : Ends A e P r)
    (hPQ : ∀ a s, P a s → Q a s) :
    Ends A e Q r := by
  cases hr with
  | ok hA hP => exact .ok hA (hPQ _ _ hP)
  | error hA => exact .error hA

theorem congr {r : Except ε α × σ} (hr : Ends A e P r) (hAB : A ↔ B) : Ends B e P r := by
  cases hr with
  | ok hA hP => exact .ok (hAB.mp hA) hP
  | error hA => exact .error fun hB => hA (hAB.mpr hB)

theorem eq_ok {r : Except ε α × σ} (hr : Ends A e P r) (h : A) : ∃ a s, r = (.ok a, s) ∧ P a s := by
  cases hr with
  | ok _ hP => exact ⟨_, _, rfl, hP⟩
  | error hA => exact absurd h hA

theorem post {r : Except ε α × σ} (hr : Ends A e P r) {a : α} {s : σ} (h : r = (.ok a, s)) :
    P a s := by
  cases hr with
  | ok _ hP =>
    cases h
    exact hP
  | error _ => cases h

theorem eq_error {r : Except ε α × σ} (hr : Ends A e P r) (h : ¬A) : ∃ s, r = (.error e, s) := by
  cases hr with
  | ok hA _ => exact absurd hA h
  | error _ => exact ⟨_, rfl⟩

end Ends

end CrateAudit.Steps
