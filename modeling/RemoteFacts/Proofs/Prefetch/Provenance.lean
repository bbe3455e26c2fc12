import RemoteFacts.Proofs.Coherence.Scan
import RemoteFacts.Proofs.Prefetch.Harvest
import RemoteFacts.Proofs.Session.Gate

/-!
# Where the result of the last prefetch comes from

* `Site.Displaces`, `result_step` : only such an event changes the result that is held, and a new one is what a prefetch
  has brought in;
* `Client.Obtained` : a result is what the remote side has answered to the batch of a prefetch;
* `Client.Provided`, `provided_run` : so is every result that a prefetch has brought in, after every history.
-/

namespace RemoteFacts

namespace Session

variable {now : Nat} {x : Site} {id : FlightId} {h : Harvest} {e : Event}

namespace Site

/-- With this event the result of the last prefetch is dropped, or replaced by that of a prefetch that ends well. -/
def Displaces (now : Nat) (e : Event) (x : Site) : Prop :=
  match e with
  | .release | .flush => True
  | .close => x.session.closed = false
  | _ => x.holding.Lands (x.step now e).2.holding

/-- A prefetch that ends well was in its scope. -/
theorem Commits.since? (hcommits : x.Commits now e id h) : x.since? id = some h.since := by
  obtain ⟨f, hf, hb, -⟩ := hcommits.told
  exact (since?_of_stage? (stage?_of_find? hf)).trans (Stage.since?_of_brings hb)

theorem Commits.lands (hcommits : x.Commits now e id h) : x.holding.Lands (x.step now e).2.holding :=
  ⟨id, h.since, h.result, hcommits.since?, congrArg Transient.result hcommits.left⟩

theorem Commits.displaces (hcommits : x.Commits now e id h) : x.Displaces now e := by
  have hlands := hcommits.lands
  cases e with
  | release => trivial
  | flush => trivial
  | close =>
    have hnone := hcommits.mover
    contradiction
  | _ => exact hlands

theorem Clears.displaces (hclears : x.Clears e) : x.Displaces now e := by
  cases e with
  | release => trivial
  | flush => trivial
  | close => exact hclears
  | _ => exact hclears.elim

/-- The result that is held stays, unless the event displaces it; a new one is what a prefetch has brought in. -/
theorem result_step (hx : x.Numbered) :
    (x.step now e).2.session.transient.result = x.session.transient.result ∨ x.Displaces now e ∧
      ((x.step now e).2.session.transient.result = none ∨ ∃ id s h, x.mover? e = some id ∧ x.stage? id = some s ∧
        s.Brings e.reply? h ∧ (x.step now e).2.session.transient.result = some ⟨h.since, h.result⟩) := by
  have hleaves : Leaves now e x (x.step now e).2.session.transient := leaves_step hx
  generalize (x.step now e).2.session.transient = t at hleaves
  cases hleaves with
  | keep _ hresult _ => exact Or.inl hresult
  | clear hclears => exact Or.inr ⟨hclears.displaces, Or.inl rfl⟩
  | commit hcommits =>
    obtain ⟨f, hf, hb, -⟩ := hcommits.told
    exact Or.inr ⟨hcommits.displaces, Or.inr ⟨_, f.stage, _, hcommits.mover, stage?_of_find? hf, hb, rfl⟩⟩

end Site

end Session

namespace Client

open Session

variable {c : Client} {i now : Nat} {id : FlightId} {e : Event} {x : Site} {history : List (Nat × Event)}
  {config : Config} {s s' : Stage} {h : Harvest} {reply? : Option Rpc.Reply} {directory : Path} {since : Nat}
  {result : PrefetchResult}

/-- The remote side has answered the batch that the prefetch `id` has sent for `directory` from the scope that it has
entered at `since`, and `result` comes of the answer. -/
def Obtained (c : Client) (history : List (Nat × Event)) (i : Nat) (id : FlightId) (directory : Path) (since : Nat)
    (result : PrefetchResult) : Prop :=
  ∃ t y r outputs facts, c.Met history i t (.settle id 0 r) y ∧
    y.stage? id = some (.batch directory since (y.session.plan directory).commands) ∧
    r.outputs (y.session.plan directory).commands = .ok outputs ∧
    PrefetchResult.ofBatch directory outputs = (result, facts)

theorem Obtained.append (h : c.Obtained history i id directory since result) (later : List (Nat × Event)) :
    c.Obtained (history ++ later) i id directory since result := by
  obtain ⟨t, y, r, outputs, facts, hmet, hrest⟩ := h
  exact ⟨t, y, r, outputs, facts, hmet.append later, hrest⟩

/-- What a prefetch that waits at this stage has sent and brought in is what it should be. -/
structure Supplied (c : Client) (history : List (Nat × Event)) (i : Nat) (config : Config) (id : FlightId) (s : Stage) :
    Prop where
  planned : ∀ directory since commands, s = .batch directory since commands →
    commands = (ProbePlan.build directory config.prefetch.metadataDir).commands
  harvested : ∀ h, s.harvest? = some h → c.Obtained history i id h.directory h.since h.result

namespace Supplied

theorem snoc {f : Nat × Event} (h : c.Supplied history i config id s) : c.Supplied (history ++ [f]) i config id s :=
  ⟨h.planned, fun harvest hs => (h.harvested harvest hs).append [f]⟩

theorem of_host (hhost : s.directory? = none) : c.Supplied history i config id s := by
  refine ⟨fun directory since commands hs => ?_, fun h hs => ?_⟩
  · rw [hs] at hhost
    contradiction
  · rw [Stage.directory?_of_harvest? hs] at hhost
    contradiction

theorem atGate : c.Supplied history i config id (.atGate directory) := ⟨nofun, nofun⟩

/-- A prefetch that goes on has brought in what the answer to its batch has made it. -/
theorem obtained (hx : ∀ s, x.stage? id = some s → c.Supplied history i x.session.config id s)
    (hmet : ∀ r, reply? = some r → c.Met history i now (.settle id 0 r) x) (hs : x.stage? id = some s)
    (hb : s.Brings reply? h) : c.Obtained history i id h.directory h.since h.result := by
  rcases Stage.batch_or_harvest_of_brings hb with ⟨commands, r, outputs, rfl, hreply, houtputs, hresult⟩ |
    ⟨h₀, hharvest, hdirectory, hsince, hresult⟩
  · obtain rfl : commands = (x.session.plan h.directory).commands := (hx _ hs).planned _ _ _ rfl
    exact ⟨now, x, r, outputs, h.facts, hmet r hreply, hs, houtputs, hresult⟩
  · rw [← hdirectory, ← hsince, ← hresult]
    exact (hx s hs).harvested h₀ hharvest

/-- Every event keeps it so. -/
theorem step (hnumbered : x.Numbered) (hx : (c.run history).site? i = some x)
    (h : ∀ id s, x.stage? id = some s → c.Supplied history i x.session.config id s)
    (hs' : (x.step (c.run history).clock e).2.stage? id = some s') :
    c.Supplied (history ++ [(i, e)]) i x.session.config id s' := by
  have hlonger : ∀ s, x.stage? id = some s → c.Supplied (history ++ [(i, e)]) i x.session.config id s :=
    fun s hs => (h id s hs).snoc
  rcases Site.comes_step hnumbered hs' with hs | ⟨hmover, hcomes⟩
  · exact hlonger s' hs
  cases hcomes with
  | stay hs => exact hlonger s' hs
  | host hhost => exact of_host hhost
  | atGate directory => exact atGate
  | batch directory =>
    refine ⟨fun _ _ commands hsame => ?_, nofun⟩
    obtain ⟨rfl, -, rfl⟩ := Stage.batch.inj hsame
    rfl
  | carry hs hb hharvest =>
    have hmet : ∀ r, e.reply? = some r → c.Met (history ++ [(i, e)]) i (c.run history).clock (.settle id 0 r) x := by
      intro r hreply
      rw [← Event.eq_settle_of_reply? hreply hmover]
      exact met_last hx
    refine ⟨fun directory since commands hsame => ?_, fun h' hharvest' => ?_⟩
    · rw [hsame] at hharvest
      contradiction
    · obtain rfl := Option.some.inj (hharvest.symm.trans hharvest')
      exact obtained hlonger hmet hs hb

end Supplied

/-- What holds of the operations of a session after every history. -/
structure Provided (c : Client) (history : List (Nat × Event)) (i : Nat) (x : Site) : Prop extends
    c.InOrder history x where
  assigned : x.Assigned
  supplied : ∀ id s, x.stage? id = some s → c.Supplied history i x.session.config id s

theorem provided_opened (connection : Watch.ConnectionId) (config : Config) (ticks : Nat) (flushesOnLeave : Bool)
    (registry : Watch.Registry) :
    c.Provided [] i ⟨Session.opened connection config ticks flushesOnLeave, registry⟩ where
  toInOrder := inOrder_opened _ _ _ _ _
  assigned := nofun
  supplied := nofun

theorem provided_run {sessions : List Session} {connection : Watch.ConnectionId} {config : Config} {ticks : Nat}
    {flushesOnLeave : Bool} (hopened : sessions[i]? = some (Session.opened connection config ticks flushesOnLeave))
    (history : List (Nat × Event)) :
    ∃ x, ((opened sessions).run history).site? i = some x ∧ (opened sessions).Provided history i x := by
  have hstart : (opened sessions).site? i = some ⟨Session.opened connection config ticks flushesOnLeave, .empty⟩ := by
    rw [site?, opened, hopened]
    rfl
  have hinit : (opened sessions).Provided [] i ⟨Session.opened connection config ticks flushesOnLeave, .empty⟩ :=
    provided_opened _ _ _ _ _
  have hown : ∀ history x e, ((opened sessions).run history).site? i = some x → (opened sessions).Provided history i x →
      (opened sessions).Provided (history ++ [(i, e)]) i (x.step ((opened sessions).run history).clock e).2 := by
    intro history x e hx h
    refine ⟨h.toInOrder.own hx, h.assigned.step h.numbered, fun id s hs => ?_⟩
    rw [(Site.later_step h.numbered).config]
    exact Supplied.step h.numbered hx h.supplied hs
  exact run_invariant hstart hinit hown fun history x j e registry _ h =>
    ⟨h.toInOrder.other (j, e), h.assigned, fun id s hs => (h.supplied id s hs).snoc⟩

end Client

end RemoteFacts
