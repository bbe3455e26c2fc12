import RemoteFacts.Proofs.Session.Shift

/-!
# The gate

* `Assigned` : a prefetch is where prefetches wait, for its directory;
* `Gated` : at the gate are the prefetches, in order of arrival, and only the first of them is in a scope of its own;
* `Occupied` : the open scope is that of an operation, as long as the host opens none;
* `Assigned.step`, `Gated.step`, `Occupied.shift` : so it is after every event.
-/

namespace RemoteFacts.Session

namespace Site

variable {now : Nat} {x y : Site} {id j : FlightId} {s stage : Stage} {reply? : Option Rpc.Reply} {yp : Site × Progress}
  {operation : Operation} {directory : Path} {e : Event}

/-! ## Which operations are prefetches -/

/-- The directory that the operation `id` is for, if it is a prefetch. -/
def directory? (id : FlightId) (x : Site) : Option Path := (x.stage? id).bind Stage.directory?

theorem directory?_of_stage? (hs : x.stage? id = some s) : x.directory? id = s.directory? := by
  rw [directory?, hs]
  rfl

theorem directory?_wait (hs : x.stage? id = some s) (hsame : stage.directory? = s.directory?) :
    (x.wait id stage).directory? j = x.directory? j := by
  rw [directory?, stage?_wait]
  split
  · next hj =>
    rw [hj, directory?_of_stage? hs, hs, ← hsame]
    rfl
  · rfl

theorem directory?_remove : (x.remove id).directory? j = if j = id then none else x.directory? j := by
  rw [directory?, stage?_remove]
  split <;> rfl

theorem directory?_enlist (hnew : x.stage? x.session.next = none) :
    (x.enlist operation stage).2.directory? j = if j = x.session.next then stage.directory? else x.directory? j := by
  rw [directory?, stage?_enlist hnew]
  split <;> rfl

/-- A prefetch stays one for the same directory as long as it has not ended. -/
theorem directory?_turn (hturn : Turn now id reply? x yp) :
    yp.1.directory? j = x.directory? j ∨ j = id ∧ yp.1.directory? j = none := by
  have hremove :
      ∀ z : Site, (z.remove id).directory? j = z.directory? j ∨ j = id ∧ (z.remove id).directory? j = none := by
    intro z
    rw [directory?_remove]
    by_cases hj : j = id
    · exact Or.inr ⟨hj, if_pos hj⟩
    · exact Or.inl (if_neg hj)
  cases hturn with
  | rest => exact Or.inl rfl
  | enter hs _ _ => exact Or.inl (directory?_wait (x := { x with session := _ }) hs rfl)
  | refuse _ _ _ => exact hremove x
  | giveUp _ _ _ => exact hremove x.leaveScope.2
  | carry desk _ hs hb hs' _ =>
    have hsame := (Stage.directory?_of_harvest? hs').trans (Stage.directory?_of_brings hb).symm
    exact Or.inl (directory?_wait (x := x.placed desk x.registry) hs hsame)
  | commit desk registry _ _ _ => exact hremove ((x.placed desk registry).landing now _)
  | goOn desk registry _ hs hhost hhost' _ =>
    exact Or.inl (directory?_wait (x := x.placed desk registry) hs (hhost'.trans hhost.symm))
  | ended desk registry _ _ _ _ => exact hremove (x.placed desk registry)

/-- What the host has asked for and where the operation waits agree on whether it is a prefetch, and for which
directory. -/
def Assigned (x : Site) : Prop := ∀ id f, x.flight? id = some f → f.operation.directory? = f.stage.directory?

namespace Assigned

theorem wait (hs : x.stage? id = some s) (hsame : stage.directory? = s.directory?) (hx : x.Assigned) :
    (x.wait id stage).Assigned := by
  intro j f hf
  rw [flight?_wait] at hf
  split at hf
  · obtain ⟨g, hg, rfl⟩ := Option.map_eq_some_iff.1 hf
    have hstage : g.stage = s := Option.some.inj ((stage?_of_find? hg).symm.trans hs)
    show g.operation.directory? = stage.directory?
    rw [hx id g hg, hstage, hsame]
  · exact hx j f hf

theorem remove (id : FlightId) (hx : x.Assigned) : (x.remove id).Assigned := by
  intro j f hf
  rw [flight?_remove] at hf
  split at hf
  · contradiction
  · exact hx j f hf

theorem enlist (hnew : x.stage? x.session.next = none) (hsame : operation.directory? = stage.directory?)
    (hx : x.Assigned) : (x.enlist operation stage).2.Assigned := by
  intro j f hf
  rw [flight?_enlist hnew] at hf
  split at hf
  · cases hf
    exact hsame
  · exact hx j f hf

theorem turn (hturn : Turn now id reply? x yp) (hx : x.Assigned) : yp.1.Assigned := by
  cases hturn with
  | rest => exact hx
  | enter hs _ _ => exact wait (x := { x with session := _ }) hs rfl hx
  | refuse _ _ _ => exact hx.remove id
  | giveUp _ _ _ => exact remove (x := x.leaveScope.2) id hx
  | carry desk _ hs hb hs' _ =>
    have hsame := (Stage.directory?_of_harvest? hs').trans (Stage.directory?_of_brings hb).symm
    exact wait (x := x.placed desk x.registry) hs hsame hx
  | commit desk registry _ _ _ => exact remove (x := (x.placed desk registry).landing now _) id hx
  | goOn desk registry _ hs hhost hhost' _ => exact wait (x := x.placed desk registry) hs (hhost'.trans hhost.symm) hx
  | ended desk registry _ _ _ _ => exact remove (x := x.placed desk registry) id hx

theorem start (hnew : x.stage? x.session.next = none) (hstart : Start now operation x yp) (hx : x.Assigned) :
    yp.1.Assigned := by
  cases hstart with
  | refused _ => exact hx
  | @prefetch directory _ _ hdirectory hturn =>
    have henlisted : (x.enlist operation (.atGate directory)).2.Assigned := hx.enlist hnew hdirectory
    exact turn hturn henlisted
  | host _ hdirectory hstage hturn => exact turn hturn (hx.enlist hnew (hdirectory.trans hstage.symm))
  | atOnce _ _ hdirectory hstage => exact hx.enlist hnew (hdirectory.trans hstage.symm)

theorem step (hnumbered : x.Numbered) (hx : x.Assigned) : (x.step now e).2.Assigned := by
  have hmoves : Moves now x e (x.step now e) := moves_step hnumbered
  generalize x.step now e = ay at hmoves
  cases hmoves with
  | launch h => exact hx.start (hnumbered.stage?_eq_none (Nat.le_refl _)) h
  | settle h => exact hx.turn h
  | proceed h => exact hx.turn h
  | dropInside _ => exact remove (x := x.leaveScope.2) _ hx
  | dropOutside _ _ => exact hx.remove _
  | dropNone _ => exact hx
  | stay _ _ h =>
    intro id f hf
    rw [h.flight?] at hf
    exact hx id f hf

end Assigned

/-! ## The order at the gate -/

/-- At the gate are the prefetches in order of arrival, and whoever is in a scope of its own is the first of them. -/
structure Gated (x : Site) : Prop where
  ordered : x.session.gate.Pairwise (· < ·)
  listed : ∀ id, id ∈ x.session.gate ↔ (x.directory? id).isSome = true
  first : ∀ id since, x.since? id = some since → x.session.gate.head? = some id

namespace Gated

/-- The first one is older than all others. -/
theorem le_of_first (hx : x.Gated) (hfirst : x.session.gate.head? = some id) (hj : j ∈ x.session.gate) : id ≤ j := by
  obtain ⟨rest, hgate⟩ := List.head?_eq_some_iff.1 hfirst
  have hordered := hx.ordered
  rw [hgate, List.pairwise_cons] at hordered
  rw [hgate] at hj
  rcases List.mem_cons.1 hj with rfl | hj
  · exact Nat.le_refl _
  · exact Nat.le_of_lt (hordered.1 j hj)

theorem wait (hs : x.stage? id = some s) (hsame : stage.directory? = s.directory?)
    (hfirst : ∀ since, stage.since? = some since → x.session.gate.head? = some id) (hx : x.Gated) :
    (x.wait id stage).Gated where
  ordered := hx.ordered
  listed j := by
    rw [directory?_wait hs hsame]
    exact hx.listed j
  first j since hj := by
    rw [since?, stage?_wait] at hj
    split at hj
    · next hid =>
      rw [hs] at hj
      exact hid ▸ hfirst since hj
    · exact hx.first j since hj

/-- When the first one leaves, the next one is first; and nobody passes another one. -/
theorem remove (id : FlightId) (hx : x.Gated) : (x.remove id).Gated where
  ordered := hx.ordered.sublist List.erase_sublist
  listed j := by
    have hnodup : x.session.gate.Nodup := hx.ordered.imp fun hlt => Nat.ne_of_lt hlt
    rw [directory?_remove]
    show j ∈ x.session.gate.erase id ↔ _
    rw [hnodup.mem_erase_iff, hx.listed]
    split
    · next hj => simp [hj]
    · next hj => simp [hj]
  first j since hj := by
    rw [since?_remove] at hj
    split at hj
    · contradiction
    · next hne =>
      obtain ⟨rest, hgate⟩ := List.head?_eq_some_iff.1 (hx.first j since hj)
      show (x.session.gate.erase id).head? = some j
      rw [hgate, List.erase_cons_tail (by simpa using hne)]
      rfl

theorem enlist (hnew : x.stage? x.session.next = none) (hhost : stage.directory? = none) (hx : x.Gated) :
    (x.enlist operation stage).2.Gated where
  ordered := hx.ordered
  listed j := by
    rw [directory?_enlist hnew]
    show j ∈ x.session.gate ↔ _
    rw [hx.listed]
    split
    · next hj => rw [hj, directory?, hnew, hhost]; rfl
    · rfl
  first j since hj := by
    rw [since?_enlist hnew, Stage.since?_eq_none_of_host hhost] at hj
    split at hj
    · contradiction
    · exact hx.first j since hj

/-- A new prefetch is the last one at the gate. -/
theorem joined (hnumbered : x.Numbered) (hx : x.Gated) :
    (x.joined operation (.atGate directory) x.session.suppression x.session.desk).Gated where
  ordered := by
    refine List.pairwise_append.2 ⟨hx.ordered, List.pairwise_singleton _ _, fun i hi j hj => ?_⟩
    rw [List.mem_singleton.1 hj]
    exact hnumbered.gate i hi
  listed j := by
    have hnew := hnumbered.stage?_eq_none (Nat.le_refl x.session.next)
    have hdirectory : (x.joined operation (.atGate directory) x.session.suppression x.session.desk).directory? j =
        if j = x.session.next then some directory else x.directory? j := directory?_enlist hnew
    rw [hdirectory]
    show j ∈ x.session.gate ++ [x.session.next] ↔ _
    rw [List.mem_append, List.mem_singleton, hx.listed]
    split
    · next hj => simp [hj]
    · next hj => simp [hj]
  first j since hj := by
    have hnew := hnumbered.stage?_eq_none (Nat.le_refl x.session.next)
    have hsince : (x.joined operation (.atGate directory) x.session.suppression x.session.desk).since? j =
        if j = x.session.next then none else x.since? j := since?_enlist hnew
    rw [hsince] at hj
    split at hj
    · contradiction
    · show (x.session.gate ++ [x.session.next]).head? = some j
      rw [List.head?_append, hx.first j since hj]
      rfl

theorem turn (hturn : Turn now id reply? x yp) (hx : x.Gated) : yp.1.Gated := by
  cases hturn with
  | rest => exact hx
  | enter hs hfirst _ =>
    have hidle : Gated { x with session := { x.session with suppression := ⟨true, .empty⟩ } } :=
      ⟨hx.ordered, hx.listed, hx.first⟩
    exact hidle.wait hs rfl fun _ _ => hfirst
  | refuse _ _ _ => exact hx.remove id
  | giveUp _ _ _ => exact remove (x := x.leaveScope.2) id ⟨hx.ordered, hx.listed, hx.first⟩
  | carry desk _ hs hb hs' _ =>
    have hplaced : (x.placed desk x.registry).Gated := ⟨hx.ordered, hx.listed, hx.first⟩
    have hsame := (Stage.directory?_of_harvest? hs').trans (Stage.directory?_of_brings hb).symm
    have hin := (since?_of_stage? hs).trans (Stage.since?_of_brings hb)
    exact hplaced.wait hs hsame fun _ _ => hx.first id _ hin
  | commit desk registry _ _ _ =>
    exact remove (x := (x.placed desk registry).landing now _) id ⟨hx.ordered, hx.listed, hx.first⟩
  | goOn desk registry _ hs hhost hhost' _ =>
    have hplaced : (x.placed desk registry).Gated := ⟨hx.ordered, hx.listed, hx.first⟩
    refine hplaced.wait hs (hhost'.trans hhost.symm) fun since hsince => ?_
    rw [Stage.since?_eq_none_of_host hhost'] at hsince
    contradiction
  | ended desk registry _ _ _ _ => exact remove (x := x.placed desk registry) id ⟨hx.ordered, hx.listed, hx.first⟩

theorem start (hnumbered : x.Numbered) (hstart : Start now operation x yp) (hx : x.Gated) : yp.1.Gated := by
  have hnew := hnumbered.stage?_eq_none (Nat.le_refl x.session.next)
  cases hstart with
  | refused _ => exact hx
  | prefetch _ _ hturn => exact (hx.joined hnumbered).turn hturn
  | host _ _ hstage hturn => exact (hx.enlist hnew hstage).turn hturn
  | atOnce _ _ _ hstage => exact hx.enlist hnew hstage

/-- Every event keeps the order at the gate. -/
theorem step (hnumbered : x.Numbered) (hx : x.Gated) : (x.step now e).2.Gated := by
  have hmoves : Moves now x e (x.step now e) := moves_step hnumbered
  generalize x.step now e = ay at hmoves
  cases hmoves with
  | launch h => exact hx.start hnumbered h
  | settle h => exact hx.turn h
  | proceed h => exact hx.turn h
  | dropInside _ => exact remove (x := x.leaveScope.2) _ ⟨hx.ordered, hx.listed, hx.first⟩
  | dropOutside _ _ => exact hx.remove _
  | dropNone _ => exact hx
  | stay _ _ h =>
    refine ⟨h.gate ▸ hx.ordered, fun id => ?_, fun id since hs => ?_⟩
    · rw [h.gate, directory?, h.stage?]
      exact hx.listed id
    · rw [since?, h.stage?] at hs
      rw [h.gate]
      exact hx.first id since hs

end Gated

end Site

/-! ## Who has opened the scope -/

/-- The host has opened no scope, so an open scope is that of an operation. -/
structure Occupied (v : Holding) : Prop where
  host : v.hostScope = false
  inside : v.suppression.active = true → ∃ id since, v.since? id = some since

namespace Occupied

variable {now : Nat} {v w : Holding} {e : Event}

theorem of_idle (hhost : v.hostScope = false) (hidle : v.suppression.active = false) : Occupied v := by
  refine ⟨hhost, fun hactive => ?_⟩
  rw [hidle] at hactive
  contradiction

theorem loses (h : Occupied v) (hw : Loses v w) : Occupied w := by
  refine ⟨hw.hostScope.trans h.host, fun hactive => ?_⟩
  rw [hw.suppression] at hactive
  rw [hw.since?]
  exact h.inside hactive

/-- Every event but one by which the host opens a scope keeps it so. -/
theorem shift (h : Occupied v) (hw : Shift now v e w) (he : e ≠ .enterScope) : Occupied w := by
  cases hw with
  | advance _ hw =>
    cases hw with
    | rest => exact h
    | enter id _ _ => exact ⟨h.host, fun _ => ⟨id, now, Function.update_self ..⟩⟩
    | leave id _ _ => exact of_idle rfl rfl
    | commit id _ _ => exact of_idle rfl rfl
  | lose _ hw => exact h.loses hw
  | apply n _ hw => exact h.loses hw
  | recordExists path value => exact ⟨h.host, h.inside⟩
  | recordTruename path target => exact ⟨h.host, h.inside⟩
  | enterHost _ => exact absurd rfl he
  | leaveHost _ => exact of_idle rfl rfl
  | drop n hactive => exact ⟨h.host, fun _ => h.inside hactive⟩

end Occupied

end RemoteFacts.Session
