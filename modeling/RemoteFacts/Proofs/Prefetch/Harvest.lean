import RemoteFacts.Proofs.Session.Shift

/-!
# What a prefetch brings in and what it leaves

* `Event.reply?` : what an event tells the operation that it takes on;
* `Site.Comes`, `comes_step` : how an operation has come to where it waits, and what it has brought in by then;
* `Site.Commits`, `Site.Clears` : a prefetch ends well and leaves its harvest, or the host drops what is left;
* `Site.Leaves`, `leaves_step` : an event does one of these, or takes at most the scan.
-/

namespace RemoteFacts.Session

/-- What an event tells an operation that has only one call out. -/
def Event.reply? : Event → Option Rpc.Reply
  | settle _ slot reply => heard? slot reply
  | _ => none

variable {now : Nat} {x : Site} {id : FlightId} {s s' : Stage} {h : Harvest} {reply? : Option Rpc.Reply}
  {yp : Site × Progress} {e : Event}

theorem Event.eq_settle_of_reply? {r : Rpc.Reply} (hreply : e.reply? = some r) (hmover : x.mover? e = some id) :
    e = .settle id 0 r := by
  cases e with
  | settle other slot reply =>
    obtain rfl := Option.some.inj hmover
    obtain ⟨rfl, rfl⟩ := heard?_eq_some hreply
    rfl
  | _ => contradiction

/-- What a prefetch brings in has come with the answer to its batch now, or before. -/
theorem Stage.batch_or_harvest_of_brings (hs : s.Brings reply? h) :
    (∃ commands r outputs, s = .batch h.directory h.since commands ∧ reply? = some r ∧
      r.outputs commands = .ok outputs ∧ PrefetchResult.ofBatch h.directory outputs = (h.result, h.facts)) ∨
    ∃ h₀, s.harvest? = some h₀ ∧ h₀.directory = h.directory ∧ h₀.since = h.since ∧ h₀.result = h.result := by
  unfold Brings at hs
  split at hs
  · obtain ⟨r, outputs, hreply, houtputs, rfl⟩ := hs
    exact Or.inl ⟨_, r, outputs, rfl, hreply, houtputs, rfl⟩
  · obtain ⟨r, -, rfl⟩ := hs
    exact Or.inr ⟨_, rfl, rfl, rfl, rfl⟩
  · rw [hs]
    exact Or.inr ⟨_, rfl, rfl, rfl, rfl⟩
  · rw [hs]
    exact Or.inr ⟨_, rfl, rfl, rfl, rfl⟩
  · contradiction

namespace Site

/-! ## Where an operation waits after it has gone on -/

/-- How the operation `id` has come to where it waits, when it has gone on at `now` and was told `reply?`. -/
inductive Comes (now : Nat) (id : FlightId) (reply? : Option Rpc.Reply) (x : Site) : Stage → Prop where
  | stay {s : Stage} (hs : x.stage? id = some s) : Comes now id reply? x s
  | host {s : Stage} (hhost : s.directory? = none) : Comes now id reply? x s
  | atGate (directory : Path) : Comes now id reply? x (.atGate directory)
  | batch (directory : Path) : Comes now id reply? x (.batch directory now (x.session.plan directory).commands)
  /-- A prefetch carries on what it has brought in. -/
  | carry {s s' : Stage} {h : Harvest} (hs : x.stage? id = some s) (hb : s.Brings reply? h)
    (hs' : s'.harvest? = some h) :
      Comes now id reply? x s'

theorem comes_turn (hturn : Turn now id reply? x yp) (hs' : yp.1.stage? id = some s') : Comes now id reply? x s' := by
  have hwait :
      ∀ (z : Site) (s stage : Stage), z.stage? id = some s → (z.wait id stage).stage? id = some s' → stage = s' :=
    fun z s stage hs hs' => Option.some.inj ((stage?_wait_self (Option.isSome_of_eq_some hs)).symm.trans hs')
  have hgone : ∀ z : Site, (z.remove id).stage? id ≠ some s' := fun z hs' => by
    rw [stage?_remove, if_pos rfl] at hs'
    contradiction
  cases hturn with
  | rest => exact .stay hs'
  | enter hs _ _ =>
    obtain rfl := hwait { x with session := _ } _ _ hs hs'
    exact .batch _
  | refuse _ _ _ => exact absurd hs' (hgone x)
  | giveUp _ _ _ => exact absurd hs' (hgone x.leaveScope.2)
  | carry desk _ hs hb hharvest _ =>
    obtain rfl := hwait (x.placed desk x.registry) _ _ hs hs'
    exact .carry hs hb hharvest
  | commit desk registry _ _ _ _ => exact absurd hs' (hgone ((x.placed desk registry).landing now _))
  | goOn desk registry _ hs _ hhost _ _ =>
    obtain rfl := hwait (x.placed desk registry) _ _ hs hs'
    exact .host hhost
  | ended desk registry _ _ _ _ _ => exact absurd hs' (hgone (x.placed desk registry))

/-- A new operation has brought in nothing. -/
theorem comes_start {operation : Operation} (hnew : x.stage? x.session.next = none) (hstart : Start now operation x yp)
    (hs' : yp.1.stage? x.session.next = some s') : Comes now x.session.next none x s' := by
  have hlisted : ∀ stage s, (x.enlist operation stage).2.stage? x.session.next = some s → stage = s := fun stage s hs =>
    Option.some.inj (((stage?_enlist hnew).trans (if_pos rfl)).symm.trans hs)
  cases hstart with
  | refused _ =>
    rw [hnew] at hs'
    contradiction
  | @prefetch directory _ _ _ hturn =>
    cases comes_turn hturn hs' with
    | stay hs =>
      obtain rfl := hlisted (.atGate directory) s' hs
      exact .atGate directory
    | host hhost => exact .host hhost
    | atGate directory => exact .atGate directory
    | batch directory => exact .batch directory
    | carry hs hb _ =>
      obtain rfl := hlisted (.atGate directory) _ hs
      contradiction
  | @host stage _ _ _ hstage hturn =>
    cases comes_turn hturn hs' with
    | stay hs =>
      obtain rfl := hlisted stage s' hs
      exact .host hstage
    | host hhost => exact .host hhost
    | atGate directory => exact .atGate directory
    | batch directory => exact .batch directory
    | carry hs hb _ =>
      obtain rfl := hlisted stage _ hs
      rw [Stage.directory?_of_brings hb] at hstage
      contradiction
  | atOnce _ _ _ hstage =>
    obtain rfl := hlisted _ s' hs'
    exact .host hstage

/-- An event leaves an operation where it waits, or takes it on. -/
theorem comes_step (hx : x.Numbered) (hs' : (x.step now e).2.stage? id = some s') :
    x.stage? id = some s' ∨ x.mover? e = some id ∧ Comes now id e.reply? x s' := by
  by_cases hmover : x.mover? e = some id
  · refine Or.inr ⟨hmover, ?_⟩
    have hmoves : Moves now x e (x.step now e) := moves_step hx
    generalize x.step now e = ay at hmoves hs'
    cases hmoves with
    | launch hstart =>
      obtain rfl := Option.some.inj hmover
      exact comes_start (hx.stage?_eq_none (Nat.le_refl _)) hstart hs'
    | settle hturn =>
      obtain rfl := Option.some.inj hmover
      exact comes_turn hturn hs'
    | proceed hturn =>
      obtain rfl := Option.some.inj hmover
      exact comes_turn hturn hs'
    | dropInside _ =>
      obtain rfl := Option.some.inj hmover
      rw [stage?_remove, if_pos rfl] at hs'
      contradiction
    | dropOutside _ _ =>
      obtain rfl := Option.some.inj hmover
      rw [stage?_remove, if_pos rfl] at hs'
      contradiction
    | dropNone _ => exact .stay hs'
    | stay hnone _ _ =>
      rw [hnone] at hmover
      contradiction
  · refine Or.inl ?_
    rw [stage?, ← flight?_step_of_ne hx hmover]
    exact hs'

/-! ## What becomes of what the last prefetch left -/

theorem transient_turn (hturn : Turn now id reply? x yp) : yp.1.session.transient = x.session.transient ∨
    ∃ f h, x.flight? id = some f ∧ f.stage.Brings reply? h ∧ yp.1.session.transient = x.holding.left h ∧
      yp.2 = ⟨[], some (f.operation.report (.prefetched (.ok h.result)))⟩ := by
  cases hturn with
  | @commit s h desk registry hs hb _ _ =>
    obtain ⟨f, hf, rfl⟩ := Option.map_eq_some_iff.1 hs
    have hlanded : ((x.placed desk registry).landing now h).flight? id = some f := hf
    refine Or.inr ⟨f, h, hf, hb, rfl, ?_⟩
    rw [commit_eq_finish, finish, hlanded]
  | _ => exact Or.inl rfl

/-- An operation that has just begun leaves nothing. -/
theorem transient_start {operation : Operation} (hnew : x.stage? x.session.next = none)
    (hstart : Start now operation x yp) : yp.1.session.transient = x.session.transient := by
  have hlisted : ∀ stage f, (x.enlist operation stage).2.flight? x.session.next = some f → stage = f.stage :=
    fun stage f hf =>
    Option.some.inj (((stage?_enlist hnew).trans (if_pos rfl)).symm.trans (stage?_of_find? hf))
  cases hstart with
  | refused _ => rfl
  | @prefetch directory _ _ _ hturn =>
    rcases transient_turn hturn with hsame | ⟨f, h, hf, hb, -⟩
    · exact hsame
    · rw [← hlisted (.atGate directory) f hf] at hb
      contradiction
  | @host stage _ _ _ hstage hturn =>
    rcases transient_turn hturn with hsame | ⟨f, h, hf, hb, -⟩
    · exact hsame
    · rw [hlisted stage f hf, Stage.directory?_of_brings hb] at hstage
      contradiction
  | atOnce _ _ _ _ => rfl

theorem transient_abandon : (x.abandon id).session.transient = x.session.transient := by
  unfold abandon
  split
  · rfl
  · split <;> rfl

/-- A report of changes takes the scan at most. -/
theorem transient_foldl_applyChange (paths : List Path) :
    (paths.foldl applyChange x).session.transient.result = x.session.transient.result ∧
      ∀ d, (paths.foldl applyChange x).session.transient.scan = some d → x.session.transient.scan = some d := by
  induction paths generalizing x with
  | nil => exact ⟨rfl, fun _ hd => hd⟩
  | cons p ps ih =>
    obtain ⟨hresult, hscan⟩ := ih (x := x.applyChange p)
    exact ⟨hresult, fun d hd => (Option.filter_eq_some_iff.1 (hscan d hd)).1⟩

theorem transient_notify (n : Rpc.Notification) :
    (x.notify n).2.session.transient.result = x.session.transient.result ∧
      ∀ d, (x.notify n).2.session.transient.scan = some d → x.session.transient.scan = some d := by
  unfold notify
  split
  · exact ⟨rfl, fun _ hd => hd⟩
  · split
    · exact ⟨rfl, fun _ hd => hd⟩
    · exact transient_foldl_applyChange _

/-- With this event the prefetch `id` ends well with the harvest `h`: it is told so, and what is left are the result of
`h` and, unless a dropped notification may falsify it, the scan of `h`. -/
structure Commits (now : Nat) (e : Event) (id : FlightId) (h : Harvest) (x : Site) : Prop where
  mover : x.mover? e = some id
  told : ∃ f, x.flight? id = some f ∧ f.stage.Brings e.reply? h ∧
    (x.step now e).1 = .progress id ⟨[], some (f.operation.report (.prefetched (.ok h.result)))⟩
  left : (x.step now e).2.session.transient = x.holding.left h

/-- With this event the host drops what the last prefetch left. -/
def Clears (e : Event) (x : Site) : Prop :=
  match e with
  | .release | .flush => True
  | .close => x.session.closed = false
  | _ => False

/-- What an event makes of what the last prefetch left: it takes the scan at most, or all, or puts a harvest in its
place. -/
inductive Leaves (now : Nat) (e : Event) (x : Site) : Transient → Prop where
  | keep {t : Transient} (hno : ¬ x.Clears e) (hresult : t.result = x.session.transient.result)
      (hscan : ∀ d, t.scan = some d → x.session.transient.scan = some d) : Leaves now e x t
  | clear (hclears : x.Clears e) : Leaves now e x .empty
  | commit {id : FlightId} {h : Harvest} (hcommits : x.Commits now e id h) : Leaves now e x (x.holding.left h)

theorem Leaves.of_same {t : Transient} (hno : ¬ x.Clears e) (hsame : t = x.session.transient) : Leaves now e x t :=
  .keep hno (congrArg Transient.result hsame) fun _ hd => hsame ▸ hd

theorem leaves_of_turn (hno : ¬ x.Clears e) (hmover : x.mover? e = some id) (hturn : Turn now id e.reply? x yp)
    (hstep : x.step now e = (.progress id yp.2, yp.1)) : Leaves now e x (x.step now e).2.session.transient := by
  have hleft := transient_turn hturn
  rw [show yp.1 = (x.step now e).2 by rw [hstep]] at hleft
  rcases hleft with hsame | ⟨f, h, hf, hb, hleft, htold⟩
  · exact .of_same hno hsame
  · rw [hleft]
    exact .commit ⟨hmover, ⟨f, hf, hb, by rw [hstep, htold]⟩, hleft⟩

/-- Each event does one of these. -/
theorem leaves_step (hx : x.Numbered) : Leaves now e x (x.step now e).2.session.transient := by
  cases e with
  | launch operation =>
    have hnew := hx.stage?_eq_none (Nat.le_refl x.session.next)
    exact .of_same not_false (transient_start hnew (start_launch hnew))
  | settle id slot reply => exact leaves_of_turn not_false rfl turn_settle rfl
  | proceed id => exact leaves_of_turn not_false rfl turn_proceed rfl
  | abandon id => exact .of_same not_false transient_abandon
  | notify n =>
    obtain ⟨hresult, hscan⟩ := transient_notify (x := x) n
    exact .keep not_false hresult hscan
  | flush => exact .clear trivial
  | release => exact .clear trivial
  | close =>
    show Leaves now .close x x.close.session.transient
    unfold close
    cases hclosed : x.session.closed with
    | true => exact .of_same (fun hopen => Bool.noConfusion (hclosed.symm.trans hopen)) rfl
    | false => exact .clear hclosed
  | enterScope => exact .of_same not_false transient_enterHostScope
  | leaveScope => exact .of_same not_false transient_leaveHostScope
  | _ => exact .of_same not_false rfl

end Site

end RemoteFacts.Session
