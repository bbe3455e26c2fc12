import Mathlib.Data.List.Induction
import RemoteFacts.Proofs.Session.Table

/-!
# Histories of a client

* `Client.Met` : at a moment of a history, one of the sessions has met an event in a state
  (`Met.append`, `met_last`, `Met.of_snoc` : how a longer history differs, `Met.lt_clock` : such a moment is past);
* `site?_step`, `site?_step_shared`, `site?_step_of_ne` : an event moves its own session, and of the others at most the
  registry;
* `run_invariant_shared`, `run_invariant` : what every event of a session and every event of another one keeps holds
  after every history (`run_after` : or after a moment of it).
-/

namespace RemoteFacts.Client

open Session

variable {c : Client} {i j t : Nat} {e e' : Event} {x y : Site} {history : List (Nat × Event)}

theorem run_snoc : c.run (history ++ [(i, e)]) = ((c.run history).step i e).2 := by
  rw [run, List.foldl_append]
  rfl

/-! ## One event -/

theorem sessions_of_site? (hx : c.site? i = some x) : c.sessions[i]? = some x.session ∧ c.registry = x.registry := by
  unfold site? at hx
  obtain ⟨s, hs, rfl⟩ := Option.map_eq_some_iff.1 hx
  exact ⟨hs, rfl⟩

theorem step_of_site? (hx : c.site? i = some x) : c.step i e =
    ((x.step c.clock e).1,
      ⟨(x.step c.clock e).2.registry, c.sessions.set i (x.step c.clock e).2.session, c.clock + 1⟩) := by
  unfold step
  rw [hx]

/-- Where there is no session nothing happens. -/
theorem step_of_none (hx : c.site? i = none) : (c.step i e).2 = c := by
  unfold step
  rw [hx]

theorem clock_step (hx : c.site? i = some x) : (c.step i e).2.clock = c.clock + 1 := by
  rw [step_of_site? hx]

theorem clock_le_step : c.clock ≤ (c.step i e).2.clock := by
  cases hx : c.site? i with
  | none => exact Nat.le_of_eq (congrArg clock (step_of_none hx)).symm
  | some x => exact Nat.le_of_lt (clock_step hx ▸ Nat.lt_succ_self _)

theorem clock_le_run : c.clock ≤ (c.run history).clock := by
  induction history generalizing c with
  | nil => exact Nat.le_refl _
  | cons f history ih => exact Nat.le_trans clock_le_step (ih (c := (c.step f.1 f.2).2))

theorem clock_le_run_append (history later : List (Nat × Event)) :
    (c.run history).clock ≤ (c.run (history ++ later)).clock := by
  rw [run, run, List.foldl_append]
  exact clock_le_run

/-- An event of a session takes it one step on. -/
theorem site?_step (hx : c.site? i = some x) : (c.step i e).2.site? i = some (x.step c.clock e).2 := by
  have hlt : i < c.sessions.length := (List.getElem?_eq_some_iff.1 (sessions_of_site? hx).1).1
  rw [step_of_site? hx, site?, List.getElem?_set_self hlt]
  rfl

theorem site?_step_shared (hx : c.site? i = some x) (hy : c.site? j = some y) (hj : j ≠ i) :
    (c.step j e).2.site? i = some { x with registry := (y.step c.clock e).2.registry } := by
  rw [step_of_site? hy, site?, List.getElem?_set_ne hj, (sessions_of_site? hx).1]
  rfl

/-- Of an event of another session nothing but the registry is to be seen. -/
theorem site?_step_of_ne (hx : c.site? i = some x) (hj : j ≠ i) :
    ∃ registry, (c.step j e).2.site? i = some { x with registry } := by
  cases hy : c.site? j with
  | none => exact ⟨x.registry, by rw [step_of_none hy]; exact hx⟩
  | some y => exact ⟨_, site?_step_shared hx hy hj⟩

/-! ## What a session has met -/

/-- At the moment `t` of the history, the session with number `i` has met `e` in the state `x`. -/
def Met (c : Client) (history : List (Nat × Event)) (i t : Nat) (e : Event) (x : Site) : Prop :=
  ∃ before after, history = before ++ (i, e) :: after ∧ (c.run before).clock = t ∧ (c.run before).site? i = some x

theorem Met.append (h : c.Met history i t e x) (later : List (Nat × Event)) : c.Met (history ++ later) i t e x := by
  obtain ⟨before, after, rfl, ht, hx⟩ := h
  exact ⟨before, after ++ later, by simp, ht, hx⟩

theorem Met.snoc {f : Nat × Event} (h : c.Met history i t e x) : c.Met (history ++ [f]) i t e x := h.append [f]

theorem Met.mem (h : c.Met history i t e x) : (i, e) ∈ history := by
  obtain ⟨before, after, rfl, -⟩ := h
  exact List.mem_append_right _ List.mem_cons_self

theorem met_last (hx : (c.run history).site? i = some x) :
    c.Met (history ++ [(i, e)]) i (c.run history).clock e x := ⟨history, [], rfl, rfl, hx⟩

/-- What has been met is older, or it is the last event. -/
theorem Met.of_snoc (h : c.Met (history ++ [(j, e')]) i t e x) : c.Met history i t e x ∨
    j = i ∧ e' = e ∧ t = (c.run history).clock ∧ (c.run history).site? i = some x := by
  obtain ⟨before, after, hsame, ht, hx⟩ := h
  rcases List.eq_nil_or_concat after with rfl | ⟨after, f, rfl⟩
  · obtain ⟨rfl, hlast⟩ := List.append_inj' hsame rfl
    obtain ⟨hj, he⟩ := Prod.mk.inj (List.singleton_inj.1 hlast)
    exact Or.inr ⟨hj, he, ht.symm, hx⟩
  · rw [List.concat_eq_append, ← List.cons_append, ← List.append_assoc] at hsame
    obtain ⟨rfl, -⟩ := List.append_inj' hsame rfl
    exact Or.inl ⟨before, after, rfl, ht, hx⟩

/-- Every moment of the history is past. -/
theorem Met.lt_clock (h : c.Met history i t e x) : t < (c.run history).clock := by
  obtain ⟨before, after, rfl, rfl, hx⟩ := h
  have hstep : (c.run (before ++ [(i, e)])).clock = (c.run before).clock + 1 := by rw [run_snoc, clock_step hx]
  have hle := clock_le_run_append (c := c) (before ++ [(i, e)]) after
  rw [List.append_assoc, List.singleton_append] at hle
  omega

/-! ## Whole histories -/

/-- What each event of a session keeps, and each event of another one, holds after every history. -/
theorem run_invariant_shared {P : List (Nat × Event) → Site → Prop} {start : Site} (hstart : c.site? i = some start)
    (hinit : P [] start)
    (hown : ∀ history x e, (c.run history).site? i = some x → P history x →
      P (history ++ [(i, e)]) (x.step (c.run history).clock e).2)
    (hother : ∀ history x y j e, j ≠ i → (c.run history).site? i = some x → (c.run history).site? j = some y →
      P history x → P (history ++ [(j, e)]) { x with registry := (y.step (c.run history).clock e).2.registry })
    (hnone : ∀ history x j e, (c.run history).site? j = none → P history x → P (history ++ [(j, e)]) x) :
    ∃ x, (c.run history).site? i = some x ∧ P history x := by
  induction history using List.reverseRecOn with
  | nil => exact ⟨start, hstart, hinit⟩
  | append_singleton history f ih =>
    obtain ⟨j, e⟩ := f
    obtain ⟨x, hx, hP⟩ := ih
    rw [run_snoc]
    by_cases hj : j = i
    · subst hj
      exact ⟨_, site?_step hx, hown history x e hx hP⟩
    · cases hy : (c.run history).site? j with
      | none => exact ⟨x, by rw [step_of_none hy, hx], hnone history x j e hy hP⟩
      | some y => exact ⟨_, site?_step_shared hx hy hj, hother history x y j e hj hx hy hP⟩

/-- What each event of a session keeps holds after every history, if it does not matter what is in the registry. -/
theorem run_invariant {P : List (Nat × Event) → Site → Prop} {start : Site} (hstart : c.site? i = some start)
    (hinit : P [] start)
    (hown : ∀ history x e, (c.run history).site? i = some x → P history x →
      P (history ++ [(i, e)]) (x.step (c.run history).clock e).2)
    (hother : ∀ history x j e registry, j ≠ i → P history x → P (history ++ [(j, e)]) { x with registry }) :
    ∃ x, (c.run history).site? i = some x ∧ P history x := by
  let Q : List (Nat × Event) → Site → Prop := fun history x => (c.run history).site? i = some x ∧ P history x
  have hinit' : Q [] start := ⟨hstart, hinit⟩
  have hown' : ∀ history x e, (c.run history).site? i = some x → Q history x →
      Q (history ++ [(i, e)]) (x.step (c.run history).clock e).2 := fun history x e hx hQ =>
    ⟨run_snoc ▸ site?_step hx, hown history x e hx hQ.2⟩
  have hother' : ∀ history x y j e, j ≠ i → (c.run history).site? i = some x → (c.run history).site? j = some y →
      Q history x → Q (history ++ [(j, e)]) { x with registry := (y.step (c.run history).clock e).2.registry } :=
    fun history x y j e hj hx hy hQ => ⟨run_snoc ▸ site?_step_shared hx hy hj, hother history x j e _ hj hQ.2⟩
  have hnone : ∀ history x j e, (c.run history).site? j = none → Q history x → Q (history ++ [(j, e)]) x := by
    intro history x j e hy ⟨hx, hP⟩
    have hj : j ≠ i := fun hj => by
      rw [hj, hx] at hy
      contradiction
    exact ⟨by rw [run_snoc, step_of_none hy, hx], hother history x j e x.registry hj hP⟩
  obtain ⟨x, hx, -, hP⟩ := run_invariant_shared (P := Q) hstart hinit' hown' hother' hnone
  exact ⟨x, hx, hP⟩

/-- What an event of a session brings about, and each later event keeps, holds from then on. -/
theorem run_after {P : List (Nat × Event) → Site → Prop} (hmet : c.Met history i t e y)
    (hinit : ∀ before, P (before ++ [(i, e)]) (y.step t e).2)
    (hown : ∀ before x e', t < (c.run before).clock → c.Met history i (c.run before).clock e' x →
      (c.run before).site? i = some x → P before x → P (before ++ [(i, e')]) (x.step (c.run before).clock e').2)
    (hother : ∀ before x z j e', j ≠ i → (c.run before).site? i = some x → (c.run before).site? j = some z →
      P before x → P (before ++ [(j, e')]) { x with registry := (z.step (c.run before).clock e').2.registry })
    (hnone : ∀ before x j e', (c.run before).site? j = none → P before x → P (before ++ [(j, e')]) x)
    {before rest : List (Nat × Event)} (hhistory : history = before ++ rest) (hlater : t < (c.run before).clock) :
    ∃ x, (c.run before).site? i = some x ∧ P before x := by
  obtain ⟨first, after, rfl, rfl, hy⟩ := hmet
  -- a longer beginning than `first` begins with it and the event
  obtain ⟨mid, rfl, hafter⟩ : ∃ mid, before = (first ++ [(i, e)]) ++ mid ∧ after = mid ++ rest := by
    rcases List.append_eq_append_iff.1 hhistory with ⟨m, rfl, hm⟩ | ⟨m, rfl, -⟩
    · cases m with
      | nil =>
        rw [List.append_nil] at hlater
        exact absurd hlater (Nat.lt_irrefl _)
      | cons f mid =>
        obtain ⟨rfl, rfl⟩ := List.cons_eq_cons.1 hm
        exact ⟨mid, by simp, rfl⟩
    · exact absurd (clock_le_run_append (c := c) before m) (Nat.not_le.2 hlater)
  have hstarted : (c.run (first ++ [(i, e)])).clock = (c.run first).clock + 1 := by rw [run_snoc, clock_step hy]
  clear hhistory hlater
  induction mid using List.reverseRecOn generalizing rest with
  | nil =>
    rw [List.append_nil]
    exact ⟨_, run_snoc ▸ site?_step hy, hinit first⟩
  | append_singleton mid f ih =>
    obtain ⟨j, e'⟩ := f
    have hhere : after = mid ++ (j, e') :: rest := by rw [hafter, List.append_assoc, List.singleton_append]
    obtain ⟨x, hx, hP⟩ := ih hhere
    rw [← List.append_assoc, run_snoc]
    by_cases hj : j = i
    · subst hj
      have hlater : (c.run first).clock < (c.run (first ++ [(j, e)] ++ mid)).clock := by
        have hle := clock_le_run_append (c := c) (first ++ [(j, e)]) mid
        omega
      have hmet : c.Met (first ++ (j, e) :: after) j (c.run (first ++ [(j, e)] ++ mid)).clock e' x :=
        ⟨first ++ [(j, e)] ++ mid, rest, by simp [hhere], rfl, hx⟩
      exact ⟨_, site?_step hx, hown _ x e' hlater hmet hx hP⟩
    · cases hz : (c.run (first ++ [(i, e)] ++ mid)).site? j with
      | none => exact ⟨x, by rw [step_of_none hz, hx], hnone _ x j e' hz hP⟩
      | some z => exact ⟨_, site?_step_shared hx hz hj, hother _ x z j e' hj hx hz hP⟩

/-- A session that was opened at the beginning is of the same connection and set up in the same way ever after. -/
theorem opened_run {sessions : List Session} {connection : Watch.ConnectionId} {config : Config} {ticks : Nat}
    {flushesOnLeave : Bool} (hopened : sessions[i]? = some (Session.opened connection config ticks flushesOnLeave))
    (history : List (Nat × Event)) : ∃ x, ((opened sessions).run history).site? i = some x ∧
      x.Numbered ∧ x.session.id = connection ∧ x.session.config = config := by
  have hstart : (opened sessions).site? i = some ⟨Session.opened connection config ticks flushesOnLeave, .empty⟩ := by
    rw [site?, opened, hopened]
    rfl
  let P : List (Nat × Event) → Site → Prop := fun _ x =>
    x.Numbered ∧ x.session.id = connection ∧ x.session.config = config
  have hown : ∀ history x e, ((opened sessions).run history).site? i = some x → P history x →
      P (history ++ [(i, e)]) (x.step ((opened sessions).run history).clock e).2 := by
    rintro history x e - ⟨hnumbered, hid, hconfig⟩
    have hlater : Site.Later x (x.step ((opened sessions).run history).clock e).2 := Site.later_step hnumbered
    exact ⟨hnumbered.step, hlater.id.trans hid, hlater.config.trans hconfig⟩
  have hother : ∀ history x j e registry, j ≠ i → P history x → P (history ++ [(j, e)]) { x with registry } := by
    rintro history x j e registry - ⟨hnumbered, hid, hconfig⟩
    exact ⟨⟨hnumbered.flights, hnumbered.gate, hnumbered.desk⟩, hid, hconfig⟩
  exact run_invariant (P := P) hstart ⟨Site.numbered_opened _ _ _ _ _, rfl, rfl⟩ hown hother

end RemoteFacts.Client
