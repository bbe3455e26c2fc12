import RemoteFacts.Proofs.Session.Accepted
import RemoteFacts.Proofs.Watch.Exchange

/-!
# The belief at rest

A remote side that can be relied on executes each call at some moment while it is out, and the session takes the answers
in any order. When no call is out any more, what is believed to be watched is watched, but for the paths that have been
overtaken.

* `Site.stays_out` : a call is out until it ends or its operation is dropped;
* `Client.Relied` : a history in which one session has such a remote side, with the exchanges of that side;
* `Client.Follows` : the answers that have been taken make the belief, and the others are still to come
  (`Follows.serve`, `Follows.answer`, `Follows.other`, `follows_of_relied`);
* `dead_at_rest_iff_overtaken` : at rest, a path is believed to be watched and is not exactly if it has been overtaken;
* `dead_watch_at_rest` : which happens when a list of watches is still to come while a watch is ended.
-/

namespace RemoteFacts

namespace Session

/-- With the event no call ends, and no operation or watch is dropped. -/
def Event.carriesOn : Event → Bool
  | .settle .. => false
  | .abandon _ => false
  | .close => false
  | .forgetWatches => false
  | _ => true

theorem Event.leaves_of_carriesOn {e : Event} (he : e.carriesOn = true) (out : FlightId → Nat → Option Rpc.Request) :
    e.leaves out = out := by
  cases e <;> first | rfl | contradiction

theorem Event.news_of_carriesOn {e : Event} (he : e.carriesOn = true) (closed : Bool)
    (out : FlightId → Nat → Option Rpc.Request) : e.news closed out = [] := by
  cases e <;> first | rfl | contradiction

namespace Site

variable {x : Site} {now slot other : Nat} {id j : FlightId} {reply : Rpc.Reply} {request : Rpc.Request} {e : Event}

/-- An operation with several calls out goes on only when the last one has ended. -/
theorem sent_settle_of_other (hask : x.asked? id other = some request) (hne : other ≠ slot) :
    (x.settle now id slot reply).2.sent = [] := by
  have hsole : ∀ {stage}, x.stage? id = some stage → slot = 0 → (∀ n, stage.asked? x.session.config (n + 1) = none) →
      False := by
    intro stage hs hslot hnone
    rw [asked?_of_stage? hs] at hask
    cases other with
    | zero => exact hne hslot.symm
    | succ n =>
      rw [hnone] at hask
      contradiction
  unfold settle
  split
  · unfold takeRemoval
    split
    · dsimp only
      split
      · rfl
      · rfl
    · rfl
  · next hs => exact (hsole hs rfl fun _ => rfl).elim
  · next hs => exact (hsole hs rfl fun _ => rfl).elim
  · next hs => exact (hsole hs rfl fun _ => rfl).elim
  · next hs => exact (hsole hs rfl fun _ => rfl).elim
  · next hs => exact (hsole hs rfl fun _ => rfl).elim
  · rfl

/-- A call is out until it ends or its operation is dropped. -/
theorem stays_out (hx : x.Numbered) (hstays : e.leaves (fun id => x.asked? id) j slot = some request) :
    (x.step now e).2.asked? j slot = some request := by
  obtain ⟨hask, hends, hkept⟩ := leaves_eq_some hstays
  by_cases hmover : x.mover? e = some j
  · cases e with
    | launch operation =>
      have hnew := hx.stage?_eq_none (Nat.le_refl x.session.next)
      rw [Option.some.inj hmover] at hnew
      rw [asked?_of_none hnew] at hask
      contradiction
    | settle id slot' reply =>
      obtain rfl : id = j := Option.some.inj hmover
      have hne : slot ≠ slot' := by
        rintro rfl
        exact hends reply rfl
      have hsettles : Settles now id slot' reply x (x.settle now id slot' reply) := settles_settle
      have hout := hsettles.asked? slot
      rw [sent_settle_of_other hask hne, if_neg hne] at hout
      exact hout.trans hask
    | proceed id =>
      obtain rfl : id = j := Option.some.inj hmover
      rcases proceed_eq_or_asked? now id x with hrest | hnone
      · show (x.proceed now id).1.asked? id slot = some request
        rw [hrest]
        exact hask
      · rw [hnone] at hask
        contradiction
    | abandon id => exact absurd (congrArg Event.abandon (Option.some.inj hmover)) hkept
    | _ => contradiction
  · exact (asked?_of_same (flight?_step_of_ne hx hmover) (later_step hx).config).trans hask

end Site

end Session

namespace Client

open Session

variable {c : Client} {i j n : Nat} {e : Event} {x : Site} {history : List (Nat × Event)} {ps : List Part}
  {connection : Watch.ConnectionId} {r : Watch.Remote} {ex : Watch.Exchange}

/-- A history in which the remote side of the session with number `i` can be relied on, with the exchanges of that
side. -/
inductive Relied (c : Client) (i : Nat) : List (Nat × Event) → Watch.Remote → Prop where
  | start : Relied c i [] ⟨[], []⟩
  /-- The remote side executes a call that is out, once. -/
  | serve {history : List (Nat × Event)} {r : Watch.Remote} {flight slot : Nat} {request : Rpc.Request}
      {reply : Rpc.Reply} (h : Relied c i history r) (hout : (c.journal history).out i flight slot = some request)
      (honce : ∀ n x, r.served[n]? = some x → x.flight = flight → x.slot = slot → n ∈ r.taken)
      (hhonest : Watch.Honest r.watched reply request) :
      Relied c i history ⟨r.served ++ [⟨flight, slot, request, reply⟩], r.taken⟩
  /-- The session takes one of the answers that it has not taken yet. -/
  | answer {history : List (Nat × Event)} {r : Watch.Remote} {n : Nat} {x : Watch.Exchange} (h : Relied c i history r)
      (hx : r.served[n]? = some x) (hnew : n ∉ r.taken) :
      Relied c i (history ++ [(i, .settle x.flight x.slot x.reply)]) ⟨r.served, r.taken ++ [n]⟩
  /-- Something else happens to the session, or anything to another one. -/
  | other {history : List (Nat × Event)} {r : Watch.Remote} {j : Nat} {e : Event} (h : Relied c i history r)
      (hother : j ≠ i ∨ e.carriesOn = true) : Relied c i (history ++ [(j, e)]) r

section Runs

variable {sessions : List Session} {config : Config} {ticks : Nat} {flushesOnLeave : Bool} {flight slot : Nat}
  {request : Rpc.Request}

/-- What is out of the session with number `i` stays out with an event that does not end it. -/
theorem out_snoc (hopened : sessions[i]? = some (Session.opened connection config ticks flushesOnLeave))
    (hothers : Apart sessions i connection)
    (hout : ((opened sessions).journal history).out i flight slot = some request)
    (hstays : j = i → e.leaves (((opened sessions).journal history).out i) flight slot = some request) :
    ((opened sessions).journal (history ++ [(j, e)])).out i flight slot = some request := by
  by_cases hj : j = i
  · subst hj
    obtain ⟨x, hx, hnumbered, -⟩ := opened_run hopened history
    have hkept := kept_run (hothers.opened hopened) history
    have hkept' := kept_run (hothers.opened hopened) (history ++ [(j, e)])
    have hsame : ((opened sessions).journal history).out j = fun id => x.asked? id :=
      funext fun id => funext fun slot => hkept.out j x hx id slot
    rw [hkept'.out j _ (run_snoc ▸ site?_step hx)]
    exact Site.stays_out hnumbered (hsame ▸ hstays rfl)
  · rw [journal_snoc, Journal.record]
    cases ((opened sessions).run history).site? j with
    | none => exact hout
    | some y =>
      dsimp only
      rw [Function.update_of_ne (Ne.symm hj)]
      exact hout

/-- What is believed of the connection after an event: what it lets be heard, if it is one of its own. -/
theorem believed_snoc (hopened : sessions[i]? = some (Session.opened connection config ticks flushesOnLeave))
    (hothers : Apart sessions i connection) (history : List (Nat × Event)) (e : Event) :
    (∃ closed, ((opened sessions).run (history ++ [(i, e)])).registry.believed connection =
        (e.news closed (((opened sessions).journal history).out i)).foldl Watch.learn
          (((opened sessions).run history).registry.believed connection)) ∧
      ∀ j, j ≠ i → ((opened sessions).run (history ++ [(j, e)])).registry.believed connection =
        ((opened sessions).run history).registry.believed connection := by
  have hkept := kept_run (hothers.opened hopened) history
  obtain ⟨x, hx, hnumbered, hid, -⟩ := opened_run hopened history
  refine ⟨⟨x.session.closed, ?_⟩, fun j hj => ?_⟩
  · have hsame : ((opened sessions).journal history).out i = fun id => x.asked? id :=
      funext fun id => funext fun slot => hkept.out i x hx id slot
    rw [run_snoc, step_of_site? hx, hsame, (sessions_of_site? hx).2]
    exact (Site.believed_step hnumbered connection).trans (if_pos hid.symm)
  · rw [run_snoc]
    cases hy : ((opened sessions).run history).site? j with
    | none => rw [step_of_none hy]
    | some y =>
      obtain ⟨s, hs⟩ := Option.isSome_iff_exists.1 (sessions_isSome_of_site? hy)
      obtain ⟨another, config', ticks', flushesOnLeave', hne, rfl⟩ := hothers j s hj hs
      obtain ⟨z, hz, hnumbered', hid', -⟩ := opened_run hs history
      obtain rfl : y = z := Option.some.inj (hy.symm.trans hz)
      rw [step_of_site? hy, (sessions_of_site? hy).2]
      exact (Site.believed_step hnumbered' connection).trans (if_neg (by rw [hid']; exact hne.symm))

/-- The answers that have been taken make the belief of the connection, and those that have not are still to come. -/
structure Follows (c : Client) (i : Nat) (connection : Watch.ConnectionId) (history : List (Nat × Event))
    (r : Watch.Remote) : Prop where
  sound : r.Sound
  pending : ∀ n x, r.served[n]? = some x → n ∉ r.taken → (c.journal history).out i x.flight x.slot = some x.request
  once : ∀ m n x y, r.served[m]? = some x → r.served[n]? = some y → m ∉ r.taken → n ∉ r.taken →
    x.flight = y.flight → x.slot = y.slot → m = n
  believed : (c.run history).registry.believed connection = r.believed

theorem Follows.serve {reply : Rpc.Reply} (h : Follows c i connection history r)
    (hout : (c.journal history).out i flight slot = some request)
    (honce : ∀ n x, r.served[n]? = some x → x.flight = flight → x.slot = slot → n ∈ r.taken)
    (hhonest : Watch.Honest r.watched reply request) :
    Follows c i connection history ⟨r.served ++ [⟨flight, slot, request, reply⟩], r.taken⟩ := by
  -- an exchange is one of the old ones or the new one
  have hcases : ∀ n x, (r.served ++ [⟨flight, slot, request, reply⟩])[n]? = some x →
      r.served[n]? = some x ∨ n = r.served.length ∧ x = ⟨flight, slot, request, reply⟩ := by
    intro n x hx
    by_cases hlt : n < r.served.length
    · rw [List.getElem?_append_left hlt] at hx
      exact Or.inl hx
    · rw [List.getElem?_append_right (Nat.le_of_not_lt hlt)] at hx
      obtain ⟨hlt', hx⟩ := List.getElem?_eq_some_iff.1 hx
      rw [List.length_singleton] at hlt'
      refine Or.inr ⟨by omega, ?_⟩
      rw [← hx, List.getElem_singleton]
  have hlt : ∀ n x, r.served[n]? = some x → n < r.served.length := fun n x hx => (List.getElem?_eq_some_iff.1 hx).1
  refine ⟨⟨fun n x hx => ?_, fun n hn => ?_⟩, fun n x hx hn => ?_, fun m n x y hx hy hm hn hflight hslot => ?_, ?_⟩
  · rcases hcases n x hx with hold | ⟨rfl, rfl⟩
    · show Watch.Honest (Watch.watchedAfter ((r.served ++ _).take n)) _ _
      rw [List.take_append_of_le_length (Nat.le_of_lt (hlt n x hold))]
      exact h.sound.honest n x hold
    · show Watch.Honest (Watch.watchedAfter ((r.served ++ _).take r.served.length)) _ _
      rw [List.take_left']
      · exact hhonest
      · rfl
  · show n < (r.served ++ _).length
    rw [List.length_append]
    exact Nat.lt_of_lt_of_le (h.sound.known n hn) (Nat.le_add_right _ _)
  · rcases hcases n x hx with hold | ⟨-, rfl⟩
    · exact h.pending n x hold hn
    · exact hout
  · rcases hcases m x hx with hx | ⟨rfl, rfl⟩
    · rcases hcases n y hy with hy | ⟨rfl, rfl⟩
      · exact h.once m n x y hx hy hm hn hflight hslot
      · exact absurd (honce m x hx hflight hslot) hm
    · rcases hcases n y hy with hy | ⟨rfl, -⟩
      · exact absurd (honce n y hy hflight.symm hslot.symm) hn
      · rfl
  · refine h.believed.trans (List.foldl_ext _ _ _ fun b n hn => ?_)
    unfold Watch.Remote.learn
    dsimp only
    rw [List.getElem?_append_left (h.sound.known n hn)]

theorem Follows.answer (hopened : sessions[i]? = some (Session.opened connection config ticks flushesOnLeave))
    (hothers : Apart sessions i connection) (h : Follows (opened sessions) i connection history r)
    (hx : r.served[n]? = some ex) (hnew : n ∉ r.taken) :
    Follows (opened sessions) i connection (history ++ [(i, .settle ex.flight ex.slot ex.reply)])
      ⟨r.served, r.taken ++ [n]⟩ := by
  have hout := h.pending n ex hx hnew
  refine ⟨⟨h.sound.honest, fun m hm => ?_⟩, fun m y hy hm => ?_, fun m k x y hx' hy hm hk => ?_, ?_⟩
  · rcases List.mem_append.1 hm with hm | hm
    · exact h.sound.known m hm
    · rw [List.mem_singleton.1 hm]
      exact (List.getElem?_eq_some_iff.1 hx).1
  · obtain ⟨hm, hne⟩ := not_or.1 fun hin => hm (List.mem_append.2 hin)
    have hpending := h.pending m y hy hm
    refine out_snoc hopened hothers hpending fun _ => ?_
    by_cases hflight : y.flight = ex.flight
    · have hslot : y.slot ≠ ex.slot := fun hslot =>
        hne (List.mem_singleton.2 (h.once m n y ex hy hx hm hnew hflight hslot))
      rw [Event.leaves, hflight, Function.update_self, Function.update_of_ne hslot, ← hflight]
      exact hpending
    · rw [Event.leaves, Function.update_of_ne hflight]
      exact hpending
  · exact h.once m k x y hx' hy (fun hin => hm (List.mem_append_left _ hin)) fun hin => hk (List.mem_append_left _ hin)
  · obtain ⟨⟨closed, hbelieved⟩, -⟩ := believed_snoc hopened hothers history (.settle ex.flight ex.slot ex.reply)
    rw [hbelieved, Event.news, hout, h.believed]
    show Watch.learn r.believed (.ended ex.request ex.reply) =
      (r.taken ++ [n]).foldl (Watch.Remote.learn ⟨r.served, _⟩) ∅
    rw [List.foldl_append]
    show _ = Watch.Remote.learn _ _ n
    rw [Watch.Remote.learn, hx]
    rfl

theorem Follows.other (hopened : sessions[i]? = some (Session.opened connection config ticks flushesOnLeave))
    (hothers : Apart sessions i connection) (h : Follows (opened sessions) i connection history r)
    (hother : j ≠ i ∨ e.carriesOn = true) : Follows (opened sessions) i connection (history ++ [(j, e)]) r := by
  refine ⟨h.sound, fun n x hx hn => ?_, h.once, ?_⟩
  · have hpending := h.pending n x hx hn
    refine out_snoc hopened hothers hpending fun hj => ?_
    rw [Event.leaves_of_carriesOn (hother.resolve_left fun hne => hne hj)]
    exact hpending
  · obtain ⟨⟨closed, hown⟩, helse⟩ := believed_snoc hopened hothers history e
    by_cases hj : j = i
    · subst hj
      rw [hown, Event.news_of_carriesOn (hother.resolve_left fun hne => hne rfl)]
      exact h.believed
    · exact (helse j hj).trans h.believed

theorem follows_of_relied (hopened : sessions[i]? = some (Session.opened connection config ticks flushesOnLeave))
    (hothers : Apart sessions i connection) (h : Relied (opened sessions) i history r) :
    Follows (opened sessions) i connection history r := by
  induction h with
  | start => exact ⟨⟨nofun, nofun⟩, nofun, nofun, Watch.Registry.believed_empty⟩
  | serve _ hout honce hhonest ih => exact ih.serve hout honce hhonest
  | answer _ hx hnew ih => exact ih.answer hopened hothers hx hnew
  | other _ hother ih => exact ih.other hopened hothers hother

/-- At rest. When the remote side of a session can be relied on and no call of the session is out, a path is believed to
be watched and is not watched exactly if it has been overtaken: the answer that speaks for it was given before the watch
was ended, and taken after the answer to that. -/
theorem dead_at_rest_iff_overtaken
    (hopened : sessions[i]? = some (Session.opened connection config ticks flushesOnLeave))
    (hothers : Apart sessions i connection) (hrelied : Relied (opened sessions) i history r)
    (hrest : ∀ flight slot, ((opened sessions).journal history).out i flight slot = none) (ps : List Part) :
    ps ∈ ((opened sessions).run history).registry.believed connection ∧ ps ∉ r.watched ↔ r.Overtaken ps := by
  have hfollows := follows_of_relied hopened hothers hrelied
  rw [hfollows.believed]
  refine Watch.Remote.dead_iff_overtaken hfollows.sound fun n hn => ?_
  by_contra huntaken
  have hout := hfollows.pending n _ (List.getElem?_eq_getElem hn) huntaken
  rw [hrest] at hout
  contradiction

end Runs

/-! ## A watch that is ended while a list of watches is to come -/

/-- A client with one session. -/
def lone : Client := opened [Session.opened 4 {} 1 true]

theorem lone_opened : [Session.opened 4 {} 1 true][0]? = some (Session.opened 4 {} 1 true) := rfl

/-- The answer to a call for the list of watches that has been executed while `/p` was watched. -/
def listedOnce : Rpc.Reply := .answered (.array [.object [("path", .text "/p")]])

/-- `/p` is watched. Then the list of watches is asked for, and the end of the watch; the answer to the latter comes
first. -/
def race : List (Nat × Event) := [(0, .launch (.watch ⟨"/p"⟩ true)), (0, .settle 0 0 (.answered (.bool true))),
  (0, .launch .resync), (0, .launch (.unwatch ⟨"/p"⟩ true)), (0, .settle 2 0 (.answered (.bool true))),
  (0, .settle 1 0 listedOnce)]

/-- The remote side has executed the calls in the order in which they were sent. -/
def raced : Watch.Remote where
  served := [⟨0, 0, .watchAdd ⟨"/p"⟩ true, .answered (.bool true)⟩, ⟨1, 0, .watchList, listedOnce⟩,
    ⟨2, 0, .watchRemove ⟨"/p"⟩, .answered (.bool true)⟩]
  taken := [0, 2, 1]

theorem relied_race : Relied lone 0 race raced := by
  have hfirst : ∀ {served : List Watch.Exchange} {taken : List Nat} {flight slot : Nat},
      (∀ x ∈ served, x.flight ≠ flight) →
      ∀ n x, served[n]? = some x → x.flight = flight → x.slot = slot → n ∈ taken :=
    fun hfresh n x hx hflight _ => absurd hflight (hfresh x (List.mem_of_getElem? hx))
  have hwatch : Relied lone 0 (race.take 1) ⟨[], []⟩ := Relied.start.other (Or.inr rfl)
  have hadded : Relied lone 0 (race.take 1) ⟨raced.served.take 1, []⟩ := hwatch.serve rfl nofun rfl
  have hheld : Relied lone 0 (race.take 2) ⟨raced.served.take 1, [0]⟩ := hadded.answer (n := 0) rfl nofun
  have hresync : Relied lone 0 (race.take 3) ⟨raced.served.take 1, [0]⟩ := hheld.other (Or.inr rfl)
  have hlisted : Relied lone 0 (race.take 3) ⟨raced.served.take 2, [0]⟩ :=
    hresync.serve rfl (hfirst (by decide)) ⟨[(⟨"/p"⟩, false)], rfl, by decide +kernel⟩
  have hunwatch : Relied lone 0 (race.take 4) ⟨raced.served.take 2, [0]⟩ := hlisted.other (Or.inr rfl)
  have hended : Relied lone 0 (race.take 4) ⟨raced.served, [0]⟩ := hunwatch.serve rfl (hfirst (by decide)) rfl
  have hgone : Relied lone 0 (race.take 5) ⟨raced.served, [0, 2]⟩ := hended.answer (n := 2) rfl (by decide)
  exact hgone.answer (n := 1) rfl (by decide)

theorem race_rests (flight slot : Nat) : (lone.journal race).out 0 flight slot = none := by
  obtain ⟨x, hx, -⟩ := opened_run lone_opened race
  have hout := (kept_run ((Apart.singleton _ 4).opened lone_opened) race).out 0 x hx flight slot
  have hflights : ((lone.run race).site? 0).map (·.session.flights.length) = some 0 := by decide +kernel
  rw [show (lone.run race).site? 0 = some x from hx] at hflights
  have hnone : x.session.flights = [] := List.length_eq_zero_iff.1 (Option.some.inj hflights)
  refine hout.trans (Site.asked?_of_none ?_)
  rw [Site.stage?, Site.flight?, hnone]
  rfl

/-- After the race nothing is out, and `/p` is believed to be watched and is not. Whoever asks for a watch of it is told
that there is one, and the remote side is not asked. -/
theorem dead_watch_at_rest : Relied lone 0 race raced ∧ (∀ flight slot, (lone.journal race).out 0 flight slot = none) ∧
    (lone.run race).registry.believed 4 = {(⟨"/p"⟩ : Path).parts} ∧ raced.watched = ∅ ∧
    ((lone.run race).step 0 (.launch (.watch ⟨"/p"⟩ true))).1 = .progress 3 ⟨[], some (.flag (.ok false))⟩ := by
  refine ⟨relied_race, race_rests, ?_, ?_, ?_⟩
  · decide +kernel
  · decide +kernel
  · rfl

/-- The list of watches, executed before the watch was ended and taken after that, has been overtaken. -/
theorem dead_at_rest_of_race : raced.Overtaken (⟨"/p"⟩ : Path).parts ∧
    (⟨"/p"⟩ : Path).parts ∈ (lone.run race).registry.believed 4 ∧ (⟨"/p"⟩ : Path).parts ∉ raced.watched := by
  have hovertaken : raced.Overtaken (⟨"/p"⟩ : Path).parts := by
    have hlast : ∀ k z, 2 < k → raced.served[k]? = some z → ¬ z.Adds (⟨"/p"⟩ : Path).parts := by
      intro k z hk hz
      have hlt : k < 3 := (List.getElem?_eq_some_iff.1 hz).1
      omega
    exact ⟨1, 2, _, _, [0, 2], [], by decide, rfl, Or.inr ⟨_, rfl, List.mem_singleton_self _⟩, rfl, rfl, hlast, rfl,
      by decide, nofun⟩
  exact ⟨hovertaken,
    (dead_at_rest_iff_overtaken lone_opened (Apart.singleton _ 4) relied_race race_rests _).2 hovertaken⟩

end Client

end RemoteFacts
