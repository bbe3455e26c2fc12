import RemoteFacts.Proofs.Session.Gate
import RemoteFacts.Proofs.Session.History

/-!
# The calls of a history

* `Call`, `Site.calls`, `Client.calls` : the calls that a session has sent to the remote side, each with its sender;
* `since?_of_calls` : a prefetch is in its scope whenever it has sent something;
* `InTurn`, `inTurn_step` : prefetches send their calls in order of arrival;
* `Unmixed`, `InTurn.unmixed` : so no call of another one comes between two calls of a prefetch.
-/

namespace RemoteFacts

namespace Session

/-- A call to the remote side, with the operation that has sent it and what the host has asked this operation for. -/
structure Call where
  flight : FlightId
  operation? : Option Operation
  request : Rpc.Request

/-- Whether a prefetch has sent the call. -/
def Call.ofPrefetch (a : Call) : Bool := (a.operation?.bind Operation.directory?).isSome

namespace Site

variable {now : Nat} {x y : Site} {id : FlightId} {reply? : Option Rpc.Reply} {yp : Site × Progress} {p : Progress}
  {operation : Operation} {e : Event} {a : Call} {log : List Call}

/-- What the host has asked for of the operation that an event begins or takes on. -/
def request? (x : Site) : Event → Option Operation
  | .launch operation => some operation
  | .settle id _ _ => (x.flight? id).map Flight.operation
  | .proceed id => (x.flight? id).map Flight.operation
  | _ => none

/-- The calls that an event at `now` sends. -/
def calls (now : Nat) (e : Event) (x : Site) : List Call :=
  match (x.step now e).1.progress? with
  | some (id, p) => p.sent.map fun call => ⟨id, x.request? e, call.2⟩
  | none => []

/-! ## Who sends calls -/

/-- A prefetch that goes on and sends something is in its scope. -/
theorem since?_of_sent (hturn : Turn now id reply? x (y, p)) (hprefetch : (x.directory? id).isSome = true)
    (hsent : p.sent ≠ []) : (y.since? id).isSome = true := by
  have hwait : ∀ (z : Site) (s stage : Stage) (since : Nat), z.stage? id = some s → stage.since? = some since →
      ((z.wait id stage).since? id).isSome = true := by
    intro z s stage since hs hsince
    rw [since?_of_stage? (stage?_wait_self (Option.isSome_of_eq_some hs)), hsince]
    rfl
  cases hturn with
  | rest => exact absurd rfl hsent
  | enter hs _ _ => exact hwait { x with session := _ } _ _ now hs rfl
  | refuse _ _ _ => exact absurd rfl hsent
  | giveUp _ _ _ => exact absurd rfl hsent
  | carry desk _ hs _ hs' _ => exact hwait (x.placed desk x.registry) _ _ _ hs (Stage.since?_of_harvest? hs')
  | commit _ _ _ _ _ => exact absurd rfl hsent
  | goOn _ _ _ hs hhost _ _ =>
    rw [directory?_of_stage? hs, hhost] at hprefetch
    contradiction
  | ended _ _ _ _ _ _ => exact absurd rfl hsent

theorem directory?_of_operation (hx : x.Assigned)
    (hprefetch : (((x.flight? id).map Flight.operation).bind Operation.directory?).isSome = true) :
    (x.directory? id).isSome = true := by
  cases hf : x.flight? id with
  | none =>
    rw [hf] at hprefetch
    contradiction
  | some f =>
    rw [hf] at hprefetch
    rw [directory?_of_stage? (stage?_of_find? hf), ← hx id f hf]
    exact hprefetch

theorem since?_of_launch (hnumbered : x.Numbered) (hstart : Start now operation x (y, p))
    (hprefetch : operation.directory?.isSome = true) (hsent : p.sent ≠ []) :
    (y.since? x.session.next).isSome = true := by
  have hnew := hnumbered.stage?_eq_none (Nat.le_refl x.session.next)
  have hhost : operation.directory? = none → False := fun hnone => by
    rw [hnone] at hprefetch
    contradiction
  cases hstart with
  | refused _ => exact absurd rfl hsent
  | @prefetch directory _ _ _ hturn =>
    have hjoined : (x.joined operation (.atGate directory) x.session.suppression x.session.desk).directory?
        x.session.next = some directory := (directory?_enlist hnew).trans (if_pos rfl)
    exact since?_of_sent hturn (Option.isSome_of_eq_some hjoined) hsent
  | host _ hdirectory _ _ => exact (hhost hdirectory).elim
  | atOnce _ _ hdirectory _ => exact (hhost hdirectory).elim

/-- Whatever a prefetch sends, it sends from its scope. -/
theorem since?_of_calls (hnumbered : x.Numbered) (hx : x.Assigned) (ha : a ∈ x.calls now e)
    (hprefetch : a.ofPrefetch = true) :
    x.mover? e = some a.flight ∧ ((x.step now e).2.since? a.flight).isSome = true := by
  have hmoves : Moves now x e (x.step now e) := moves_step hnumbered
  unfold calls at ha
  generalize x.step now e = ay at hmoves ha
  have hsender : ∀ (id : FlightId) (p : Progress), a ∈ p.sent.map (fun call => (⟨id, x.request? e, call.2⟩ : Call)) →
      a.flight = id ∧ ((x.request? e).bind Operation.directory?).isSome = true ∧ p.sent ≠ [] := by
    intro id p hmem
    obtain ⟨call, hcall, rfl⟩ := List.mem_map.1 hmem
    exact ⟨rfl, hprefetch, List.ne_nil_of_mem hcall⟩
  cases hmoves with
  | launch h =>
    obtain ⟨hid, hrequest, hsent⟩ := hsender _ _ ha
    rw [hid]
    exact ⟨rfl, since?_of_launch hnumbered h hrequest hsent⟩
  | settle h =>
    obtain ⟨hid, hrequest, hsent⟩ := hsender _ _ ha
    rw [hid]
    exact ⟨rfl, since?_of_sent h (directory?_of_operation hx hrequest) hsent⟩
  | proceed h =>
    obtain ⟨hid, hrequest, hsent⟩ := hsender _ _ ha
    rw [hid]
    exact ⟨rfl, since?_of_sent h (directory?_of_operation hx hrequest) hsent⟩
  | dropInside _ => contradiction
  | dropOutside _ _ => contradiction
  | dropNone _ => contradiction
  | stay _ hquiet _ =>
    dsimp only at ha
    rw [hquiet] at ha
    contradiction

/-! ## The order of the calls -/

/-- Prefetches have sent these calls in order of arrival, and those at the gate are none of the earlier ones. -/
structure InTurn (log : List Call) (x : Site) : Prop where
  ordered : log.Pairwise fun a b => a.ofPrefetch = true → b.ofPrefetch = true → a.flight ≤ b.flight
  past : ∀ a ∈ log, a.ofPrefetch = true → a.flight < x.session.next ∧ ∀ id ∈ x.session.gate, a.flight ≤ id

theorem next_turn (hturn : Turn now id reply? x yp) : yp.1.session.next = x.session.next := by
  cases hturn <;> rfl

theorem le_next_step (hnumbered : x.Numbered) : x.session.next ≤ (x.step now e).2.session.next := by
  have hmoves : Moves now x e (x.step now e) := moves_step hnumbered
  generalize x.step now e = ay at hmoves
  cases hmoves with
  | launch h =>
    cases h with
    | refused _ => exact Nat.le_refl _
    | prefetch _ _ hturn => exact (next_turn hturn).symm ▸ Nat.le_succ _
    | host _ _ _ hturn => exact (next_turn hturn).symm ▸ Nat.le_succ _
    | atOnce _ _ _ _ => exact Nat.le_succ _
  | settle h => exact Nat.le_of_eq (next_turn h).symm
  | proceed h => exact Nat.le_of_eq (next_turn h).symm
  | dropInside _ => exact Nat.le_refl _
  | dropOutside _ _ => exact Nat.le_refl _
  | dropNone _ => exact Nat.le_refl _
  | stay _ _ h => exact Nat.le_of_eq h.next.symm

/-- Whoever is at the gate after an event was there before or has come with it. -/
theorem mem_gate_of_step (hnumbered : x.Numbered) (hx : x.Gated) (hid : id ∈ (x.step now e).2.session.gate) :
    id ∈ x.session.gate ∨ id = x.session.next := by
  have hprefetch := (hx.step hnumbered).listed id |>.1 hid
  have hold : (x.step now e).2.directory? id = x.directory? id → id ∈ x.session.gate := fun hsame => by
    rw [hx.listed, ← hsame]
    exact hprefetch
  by_cases hmover : x.mover? e = some id
  · have hmoves : Moves now x e (x.step now e) := moves_step hnumbered
    generalize x.step now e = ay at hmoves hold hprefetch
    have hturn : ∀ {reply? p y}, Turn now id reply? x (y, p) → (y.directory? id).isSome = true →
        y.directory? id = x.directory? id := by
      intro reply? p y hturn hsome
      rcases directory?_turn hturn with hsame | ⟨-, hnone⟩
      · exact hsame
      · rw [hnone] at hsome
        contradiction
    have hgone : ∀ z : Site, (z.remove id).directory? id = none := fun z => by rw [directory?_remove, if_pos rfl]
    cases hmoves with
    | launch h => exact Or.inr (Option.some.inj hmover).symm
    | settle h =>
      obtain rfl := Option.some.inj hmover
      exact Or.inl (hold (hturn h hprefetch))
    | proceed h =>
      obtain rfl := Option.some.inj hmover
      exact Or.inl (hold (hturn h hprefetch))
    | dropInside _ =>
      obtain rfl := Option.some.inj hmover
      rw [hgone] at hprefetch
      contradiction
    | dropOutside _ _ =>
      obtain rfl := Option.some.inj hmover
      rw [hgone] at hprefetch
      contradiction
    | dropNone _ => exact Or.inl (hold rfl)
    | stay _ _ h => exact Or.inl (hold (by rw [directory?, h.stage?]; rfl))
  · refine Or.inl (hold ?_)
    rw [directory?, stage?, flight?_step_of_ne hnumbered hmover]
    rfl

/-- A call that is sent now is that of the first one at the gate, who has come after all who have sent calls before. -/
theorem inTurn_step (hnumbered : x.Numbered) (hassigned : x.Assigned) (hx : x.Gated) (h : InTurn log x) :
    InTurn (log ++ x.calls now e) (x.step now e).2 := by
  have hgated : (x.step now e).2.Gated := hx.step hnumbered
  have hnew : ∀ a ∈ x.calls now e, a.ofPrefetch = true → x.mover? e = some a.flight ∧
      (x.step now e).2.session.gate.head? = some a.flight := by
    intro a ha hprefetch
    obtain ⟨hmover, hin⟩ := since?_of_calls hnumbered hassigned ha hprefetch
    obtain ⟨since, hsince⟩ := Option.isSome_iff_exists.1 hin
    exact ⟨hmover, hgated.first _ since hsince⟩
  have hfirst : ∀ a ∈ x.calls now e, a.ofPrefetch = true → a.flight ∈ (x.step now e).2.session.gate :=
    fun a ha hprefetch => List.mem_of_mem_head? (hnew a ha hprefetch).2
  have hlater : ∀ a ∈ log, a.ofPrefetch = true → ∀ id ∈ (x.step now e).2.session.gate, a.flight ≤ id := by
    intro a ha hprefetch id hid
    rcases mem_gate_of_step hnumbered hx hid with hid | rfl
    · exact (h.past a ha hprefetch).2 id hid
    · exact Nat.le_of_lt (h.past a ha hprefetch).1
  refine ⟨List.pairwise_append.2 ⟨h.ordered, ?_, fun a ha b hb hprefetch hprefetch' => ?_⟩, fun a ha hprefetch => ?_⟩
  · refine List.pairwise_iff_forall_sublist.2 fun {a b} hsub hprefetch hprefetch' => ?_
    have ha := (hnew a (hsub.subset (by simp)) hprefetch).1
    have hb := (hnew b (hsub.subset (by simp)) hprefetch').1
    exact Nat.le_of_eq (Option.some.inj (ha.symm.trans hb))
  · exact hlater a ha hprefetch _ (hfirst b hb hprefetch')
  · rcases List.mem_append.1 ha with ha | ha
    · exact ⟨Nat.lt_of_lt_of_le (h.past a ha hprefetch).1 (le_next_step hnumbered), hlater a ha hprefetch⟩
    · exact ⟨hnumbered.step.gate _ (hfirst a ha hprefetch),
        fun id hid => hgated.le_of_first (hnew a ha hprefetch).2 hid⟩

/-- No call of another prefetch comes between two calls of one. -/
def Unmixed (log : List Call) : Prop :=
  ∀ a b d, [a, b, d].Sublist log → a.ofPrefetch = true → b.ofPrefetch = true → d.ofPrefetch = true →
    d.flight = a.flight → b.flight = a.flight

theorem InTurn.unmixed (h : InTurn log x) : Unmixed log := by
  intro a b d hsub ha hb hd hsame
  have hordered := h.ordered.sublist hsub
  simp only [List.pairwise_cons, List.mem_cons, List.not_mem_nil, or_false, forall_eq_or_imp, forall_eq] at hordered
  have hab : a.flight ≤ b.flight := hordered.1.1 ha hb
  have hba : b.flight ≤ a.flight := hsame ▸ hordered.2.1 hb hd
  exact Nat.le_antisymm hba hab

end Site

end Session

namespace Client

open Session

variable {c : Client} {i j : Nat} {e : Event} {x : Site} {history : List (Nat × Event)}

/-- The calls that the session with number `i` sends in a history, in order. -/
def calls (i : Nat) : Client → List (Nat × Event) → List Call
  | _, [] => []
  | c, (j, e) :: history =>
    (if j = i then ((c.site? i).map (Site.calls c.clock e)).getD [] else []) ++ calls i (c.step j e).2 history

theorem calls_append (history later : List (Nat × Event)) :
    c.calls i (history ++ later) = c.calls i history ++ (c.run history).calls i later := by
  induction history generalizing c with
  | nil => rfl
  | cons f history ih => rw [List.cons_append, calls, calls, ih, List.append_assoc]; rfl

theorem calls_snoc (hx : (c.run history).site? i = some x) :
    c.calls i (history ++ [(i, e)]) = c.calls i history ++ x.calls (c.run history).clock e := by
  rw [calls_append, calls, if_pos rfl, hx, calls, List.append_nil]
  rfl

theorem calls_snoc_of_ne (hj : j ≠ i) : c.calls i (history ++ [(j, e)]) = c.calls i history := by
  rw [calls_append, calls, if_neg hj, calls, List.append_nil, List.append_nil]

end Client

end RemoteFacts
