import Mathlib.Data.List.Perm.Basic
import RemoteFacts.Proofs.Session.Joined
import RemoteFacts.Proofs.Session.Told
import RemoteFacts.Proofs.Watch.Ledger

/-!
# The end of all watches

The end of every watch is asked for at once, one call a path, and the answers come in any order.

* `Rpc.Reply.isFlag` : whether a call was answered by `true` or `false`, which is when it has not failed;
* `CallEnd`, `Site.settleEach` : how a call has ended, and an operation that is told of the ends of its calls one by
  one;
* `Registry.afterEnds` : what is left of a registry then, which does not depend on the order (`afterEnds_perm`);
* `Awaits`, `Site.settle_removal`, `Site.settleEach_removals` : one end, and a run of all that are still to come
  (`Site.settleEach_watched` : of all from the first on);
* `unwatchAll_settles_each_path` : what is sent, told and left, from the launch to the end.
-/

namespace RemoteFacts

/-- A call was answered by `true` or `false`. All else is an error for those that ask for a flag. -/
def Rpc.Reply.isFlag : Rpc.Reply → Bool
  | answered (.bool _) => true
  | _ => false

theorem Rpc.Reply.isOk_flag {method : String} {reply : Rpc.Reply} : (reply.flag method).isOk = reply.isFlag := by
  rw [Bool.eq_iff_iff, isOk_flag_iff]
  constructor
  · rintro ⟨b, rfl⟩
    rfl
  · intro h
    unfold isFlag at h
    split at h
    · exact ⟨_, rfl⟩
    · contradiction

/-! ## What is left of a registry -/

namespace Watch.Registry

variable {c d : ConnectionId} {paths : List Path} {path : Path} {slot : Nat} {reply : Rpc.Reply} {r : Registry}
    {e : Entry}
  {calls calls' : List (Nat × Rpc.Reply)}

/-- The entry is that of the path whose watch a call was to end, and the call has not failed. -/
def frees (c : ConnectionId) (paths : List Path) (e : Entry) (call : Nat × Rpc.Reply) : Bool :=
  call.2.isFlag && paths[call.1]?.any (isFor c · e)

/-- What is left of a registry when calls to end the watches of `paths` have ended. -/
def afterEnds (c : ConnectionId) (paths : List Path) (calls : List (Nat × Rpc.Reply)) (r : Registry) : Registry :=
  ⟨r.entries.filter fun e => !calls.any (frees c paths e)⟩

theorem afterEnds_nil : r.afterEnds c paths [] = r := congrArg Registry.mk (List.filter_eq_self.2 fun _ _ => rfl)

theorem afterEnds_cons (hpath : paths[slot]? = some path) : r.afterEnds c paths ((slot, reply) :: calls) =
    (if reply.isFlag then (r.unregister c path).2 else r).afterEnds c paths calls := by
  have hfirst : ∀ e, frees c paths e (slot, reply) = (reply.isFlag && isFor c path e) := fun e => by
    rw [frees, hpath, Option.any_some]
  unfold afterEnds
  cases hflag : reply.isFlag with
  | true =>
    rw [if_pos rfl, unregister, List.filter_filter]
    congr 1
    refine List.filter_congr fun e _ => ?_
    rw [List.any_cons, hfirst, hflag, Bool.true_and, Bool.not_or, Bool.and_comm]
  | false =>
    rw [if_neg Bool.false_ne_true]
    congr 1
    refine List.filter_congr fun e _ => ?_
    rw [List.any_cons, hfirst, hflag, Bool.false_and, Bool.false_or]

theorem afterEnds_perm (h : calls.Perm calls') : r.afterEnds c paths calls = r.afterEnds c paths calls' := by
  unfold afterEnds
  congr 1
  refine List.filter_congr fun e _ => ?_
  rw [h.any_eq]

theorem own_afterEnds_of_ne (hne : d ≠ c) : (r.afterEnds c paths calls).own d = r.own d := by
  unfold afterEnds own
  rw [List.filter_filter]
  refine List.filter_congr fun e _ => ?_
  cases hd : e.connection == d with
  | false => rfl
  | true =>
    have hc : e.connection ≠ c := by
      rw [beq_iff_eq.1 hd]
      exact hne
    have hnone : calls.any (frees c paths e) = false := by
      rw [List.any_eq_false]
      intro call _ hfrees
      obtain ⟨p, -, hfor⟩ := (Option.any_eq_true _ _).1 (Bool.and_eq_true_iff.1 hfrees).2
      exact hc (isFor_iff.1 hfor).1
    rw [hnone]
    rfl

end Watch.Registry

namespace Session

/-! ## Calls that end -/

/-- How one of the calls of an operation has ended, and when. -/
structure CallEnd where
  moment : Nat
  slot : Nat
  reply : Rpc.Reply

/-- Which call it was, and what came of it. -/
def CallEnd.call (a : CallEnd) : Nat × Rpc.Reply := (a.slot, a.reply)

namespace Site

/-- Tells an operation of the ends of its calls, in the order in which they come. -/
def settleEach (id : FlightId) : List CallEnd → Site → Site × List Progress
  | [], x => (x, [])
  | a :: ends, x =>
    let (y, p) := x.settle a.moment id a.slot a.reply
    let (z, ps) := y.settleEach id ends
    (z, p :: ps)

variable {x : Site} {calls : List (Path × Option Bool)} {now slot : Nat} {path : Path} {reply : Rpc.Reply}
  {ends rest : List CallEnd} {a : CallEnd}

theorem settleEach_cons {id : FlightId} {y : Site} {p : Progress} (h : x.settle a.moment id a.slot a.reply = (y, p)) :
    x.settleEach id (a :: rest) = ((y.settleEach id rest).1, p :: (y.settleEach id rest).2) := by
  rw [settleEach, h]

/-- The site when a call to end the watch of `path` has ended with `reply`. -/
def heard (path : Path) (reply : Rpc.Reply) (x : Site) : Site :=
  { x with registry := if reply.isFlag then (x.registry.unregister x.session.id path).2 else x.registry }

theorem numbered_heard (hx : x.Numbered) (path : Path) (reply : Rpc.Reply) : (x.heard path reply).Numbered :=
  ⟨hx.flights, hx.gate, hx.desk⟩

/-- The site when calls to end the watches of `paths` have ended. -/
def unwatched (paths : List Path) (calls : List (Nat × Rpc.Reply)) (x : Site) : Site :=
  { x with registry := x.registry.afterEnds x.session.id paths calls }

theorem unwatched_nil {paths : List Path} : x.unwatched paths [] = x := by
  rw [unwatched, Watch.Registry.afterEnds_nil]

theorem unwatched_heard {paths : List Path} {calls : List (Nat × Rpc.Reply)} (hpath : paths[slot]? = some path) :
    (x.heard path reply).unwatched paths calls = x.unwatched paths ((slot, reply) :: calls) := by
  unfold heard unwatched
  rw [Watch.Registry.afterEnds_cons hpath]

/-- The end of one of the calls is noted, and its path is dropped unless the call has failed. When it was the last, the
operation ends and tells how many have not failed. -/
theorem settle_removal (hx : x.Numbered) (hcall : calls[slot]? = some (path, none)) (now : Nat) (reply : Rpc.Reply) :
    (x.enlist .unwatchAll (.removingAll calls)).2.settle now x.session.next slot reply =
      if (calls.set slot (path, some reply.isFlag)).all (·.2.isSome) then
        ((x.heard path reply).parted x.session.suppression,
          ⟨[], some (.count (.ok ((calls.set slot (path, some reply.isFlag)).countP (·.2 == some true))))⟩)
      else (((x.heard path reply).enlist .unwatchAll (.removingAll (calls.set slot (path, some reply.isFlag)))).2,
        .waiting) := by
  have hstage : (x.enlist .unwatchAll (.removingAll calls)).2.stage? x.session.next = some (.removingAll calls) := by
    rw [stage?_enlist (hx.stage?_eq_none (Nat.le_refl _)), if_pos rfl]
  have hheard : (if reply.isFlag = true then (x.enlist .unwatchAll (.removingAll calls)).2.dropWatch path
      else (x.enlist .unwatchAll (.removingAll calls)).2) =
        ((x.heard path reply).enlist .unwatchAll (.removingAll calls)).2 := by
    unfold heard
    cases reply.isFlag with
    | true => rfl
    | false => rfl
  simp only [settle, hstage]
  unfold takeRemoval
  rw [hcall]
  simp only [Rpc.Reply.isOk_flag, hheard]
  split
  · exact finish_enlist (numbered_heard hx path reply)
  · exact congrArg (·, Progress.waiting) (wait_enlist (numbered_heard hx path reply))

/-! ## All calls -/

/-- Calls that have all ended. -/
theorem all_isSome_iff :
    calls.all (·.2.isSome) = true ↔ ∀ (slot : Nat) (path : Path), calls[slot]? ≠ some (path, none) := by
  rw [List.all_eq_true]
  constructor
  · intro hall slot path hcall
    exact absurd (hall _ (List.mem_of_getElem? hcall)) Bool.false_ne_true
  · intro hnone call hcall
    obtain ⟨slot, hslot⟩ := List.mem_iff_getElem?.1 hcall
    obtain ⟨path, answer⟩ := call
    cases answer with
    | none => exact absurd hslot (hnone slot path)
    | some _ => rfl

/-- The calls whose ends are still to come are those that have no answer yet. -/
def Awaits (calls : List (Path × Option Bool)) (ends : List CallEnd) : Prop :=
  ∀ slot, slot ∈ ends.map CallEnd.slot ↔ ∃ path, calls[slot]? = some (path, none)

theorem Awaits.set (h : Awaits calls (a :: rest)) (hslots : ((a :: rest).map CallEnd.slot).Nodup) (b : Bool) :
    Awaits (calls.set a.slot (path, some b)) rest := by
  intro slot
  rw [List.map_cons, List.nodup_cons] at hslots
  by_cases hslot : slot = a.slot
  · subst hslot
    refine ⟨fun hin => absurd hin hslots.1, ?_⟩
    rintro ⟨p, hp⟩
    rw [List.getElem?_set_self'] at hp
    obtain ⟨_, -, hsame⟩ := Option.map_eq_some_iff.1 hp
    exact absurd (congrArg Prod.snd hsame) nofun
  · rw [List.getElem?_set_ne (Ne.symm hslot), ← h slot, List.map_cons, List.mem_cons, or_iff_right hslot]

theorem Awaits.all_isSome_iff (h : Awaits calls ends) : calls.all (·.2.isSome) = true ↔ ends = [] := by
  rw [Site.all_isSome_iff]
  constructor
  · intro hnone
    cases ends with
    | nil => rfl
    | cons a rest =>
      obtain ⟨path, hpath⟩ := (h a.slot).1 List.mem_cons_self
      exact absurd hpath (hnone a.slot path)
  · rintro rfl slot path hcall
    exact absurd ((h slot).2 ⟨path, hcall⟩) List.not_mem_nil

theorem countP_set_answer (hcall : calls[slot]? = some (path, none)) (b : Bool) :
    (calls.set slot (path, some b)).countP (·.2 == some true) =
      calls.countP (·.2 == some true) + if b then 1 else 0 := by
  obtain ⟨hlt, hslot⟩ := List.getElem?_eq_some_iff.1 hcall
  rw [List.countP_set hlt, hslot]
  cases b with
  | true => rfl
  | false => rfl

/-- When all calls that are still to come have ended, the operation has ended with the last of them. -/
theorem settleEach_removals (hx : x.Numbered) (hsome : ends ≠ []) (hslots : (ends.map CallEnd.slot).Nodup)
    (hends : Awaits calls ends) : (x.enlist .unwatchAll (.removingAll calls)).2.settleEach x.session.next ends =
      ((x.unwatched (calls.map (·.1)) (ends.map CallEnd.call)).parted x.session.suppression,
        List.replicate (ends.length - 1) .waiting ++
          [⟨[], some (.count (.ok (calls.countP (·.2 == some true) + ends.countP (·.reply.isFlag))))⟩]) := by
  -- each end takes one call from those that are awaited, so that none but the last finds all answered
  induction ends generalizing x calls with
  | nil => contradiction
  | cons a rest ih =>
    obtain ⟨path, hcall⟩ := (hends a.slot).1 List.mem_cons_self
    have hrest : Awaits (calls.set a.slot (path, some a.reply.isFlag)) rest := hends.set hslots _
    have hpath : (calls.map (·.1))[a.slot]? = some path := by
      rw [List.getElem?_map, hcall]
      rfl
    have hpaths : (calls.set a.slot (path, some a.reply.isFlag)).map (·.1) = calls.map (·.1) := by
      obtain ⟨hlt, hslot⟩ := List.getElem?_eq_some_iff.1 hpath
      rw [List.map_set, ← hslot, List.set_getElem_self]
    have hleft : (x.heard path a.reply).unwatched (calls.map (·.1)) (rest.map CallEnd.call) =
        x.unwatched (calls.map (·.1)) ((a :: rest).map CallEnd.call) := unwatched_heard hpath
    have hcount : (calls.set a.slot (path, some a.reply.isFlag)).countP (·.2 == some true) +
        rest.countP (·.reply.isFlag) = calls.countP (·.2 == some true) + (a :: rest).countP (·.reply.isFlag) := by
      rw [countP_set_answer hcall, List.countP_cons]
      omega
    have hsettle := settle_removal hx hcall a.moment a.reply
    cases rest with
    | nil =>
      rw [if_pos (hrest.all_isSome_iff.2 rfl)] at hsettle
      rw [settleEach_cons hsettle, ← hleft, ← hcount, List.map_nil, unwatched_nil]
      rfl
    | cons b rest =>
      rw [if_neg (mt hrest.all_isSome_iff.1 (List.cons_ne_nil b rest))] at hsettle
      have hlater := ih (numbered_heard hx path a.reply) (List.cons_ne_nil b rest) (List.nodup_cons.1 hslots).2 hrest
      rw [hpaths, hleft, hcount] at hlater
      rw [settleEach_cons hsettle]
      exact congrArg (fun r : Site × List Progress => (r.1, Progress.waiting :: r.2)) hlater

/-! ## From the launch to the end -/

theorem launch_unwatchAll (hopen : x.session.closed = false) (hsome : x.watched ≠ []) :
    x.launch now .unwatchAll = (x.session.next, (x.enlist .unwatchAll (.removingAll (x.watched.map (·, none)))).2,
      ⟨x.watched.zipIdx.map fun w => (w.2, .watchRemove w.1), none⟩) := by
  unfold launch
  rw [hopen]
  cases hwatched : x.watched with
  | nil => contradiction
  | cons path paths => rfl

theorem launch_unwatchAll_nil (hopen : x.session.closed = false) (hnone : x.watched = []) :
    x.launch now .unwatchAll = (x.session.next, x, ⟨[], some (.count (.ok 0))⟩) := by
  unfold launch
  rw [hopen, hnone]
  rfl

/-- In the beginning all calls are still to come. -/
theorem awaits_of_perm {paths : List Path} (hall : (ends.map CallEnd.slot).Perm (List.range paths.length)) :
    Awaits (paths.map (·, none)) ends := by
  intro slot
  rw [hall.mem_iff, List.mem_range, List.getElem?_map]
  constructor
  · intro hlt
    exact ⟨paths[slot], by rw [List.getElem?_eq_getElem hlt]; rfl⟩
  · rintro ⟨path, hpath⟩
    obtain ⟨_, hslot, -⟩ := Option.map_eq_some_iff.1 hpath
    exact (List.getElem?_eq_some_iff.1 hslot).1

theorem settleEach_watched (hx : x.Numbered) (hsome : x.watched ≠ [])
    (hall : (ends.map CallEnd.slot).Perm (List.range x.watched.length)) :
    (x.enlist .unwatchAll (.removingAll (x.watched.map (·, none)))).2.settleEach x.session.next ends =
      ((x.unwatched x.watched (ends.map CallEnd.call)).parted x.session.suppression,
        List.replicate (ends.length - 1) .waiting ++ [⟨[], some (.count (.ok (ends.countP (·.reply.isFlag))))⟩]) := by
  have hends : ends ≠ [] := by
    rintro rfl
    have hlength := hall.length_eq
    rw [List.map_nil, List.length_nil, List.length_range] at hlength
    exact hsome (List.length_eq_zero_iff.1 hlength.symm)
  have hpaths : (x.watched.map fun path => (path, (none : Option Bool))).map (·.1) = x.watched := by
    rw [List.map_map]
    exact List.map_id _
  have hnone : (x.watched.map fun path => (path, (none : Option Bool))).countP (·.2 == some true) = 0 := by
    rw [List.countP_eq_zero]
    intro call hcall
    obtain ⟨path, -, rfl⟩ := List.mem_map.1 hcall
    exact Bool.false_ne_true
  have hslots : (ends.map CallEnd.slot).Nodup := hall.nodup_iff.2 List.nodup_range
  rw [settleEach_removals hx hends hslots (awaits_of_perm hall), hpaths, hnone, Nat.zero_add]

/-- In whatever order the same calls end, the same comes of them. -/
theorem settleEach_watched_perm (hx : x.Numbered) (hsome : x.watched ≠ [])
    (hall : (ends.map CallEnd.slot).Perm (List.range x.watched.length)) {ends' : List CallEnd}
    (hends : (ends'.map CallEnd.call).Perm (ends.map CallEnd.call)) :
    (x.enlist .unwatchAll (.removingAll (x.watched.map (·, none)))).2.settleEach x.session.next ends' =
      (x.enlist .unwatchAll (.removingAll (x.watched.map (·, none)))).2.settleEach x.session.next ends := by
  have hall' : (ends'.map CallEnd.slot).Perm (List.range x.watched.length) := by
    have hslots := hends.map Prod.fst
    rw [List.map_map, List.map_map] at hslots
    exact hslots.trans hall
  have hlength : ends'.length = ends.length := by simpa using hends.length_eq
  have hcount : ends'.countP (·.reply.isFlag) = ends.countP (·.reply.isFlag) := by
    have hflags := hends.countP_eq (·.2.isFlag)
    rw [List.countP_map, List.countP_map] at hflags
    exact hflags
  rw [settleEach_watched hx hsome hall, settleEach_watched hx hsome hall', hlength, hcount, unwatched, unwatched,
    Watch.Registry.afterEnds_perm hends]

/-- An entry is left exactly if it is of another connection or the call for its path has failed. -/
theorem mem_unwatched_iff (heach : x.registry.EachOnce)
    (hall : (ends.map CallEnd.slot).Perm (List.range x.watched.length)) {e : Watch.Entry} :
    e ∈ (x.unwatched x.watched (ends.map CallEnd.call)).registry.entries ↔ e ∈ x.registry.entries ∧
      (e.connection = x.session.id → ∃ a ∈ ends, x.watched[a.slot]? = some e.path ∧ a.reply.isFlag = false) := by
  have hnodup : (x.watched.map Path.parts).Nodup := heach.pathsFor _
  have hslots : (ends.map CallEnd.slot).Nodup := hall.nodup_iff.2 List.nodup_range
  show e ∈ x.registry.entries.filter _ ↔ _
  rw [List.mem_filter, Bool.not_eq_true', List.any_map, List.any_eq_false]
  refine and_congr_right fun he => ⟨fun hkept hc => ?_, fun hfailed a ha hfrees => ?_⟩
  · have hwatched : e.path ∈ x.watched :=
      List.mem_map_of_mem (Watch.Registry.mem_entriesFor.2 ⟨he, hc⟩)
    obtain ⟨slot, hslot⟩ := List.mem_iff_getElem?.1 hwatched
    have hin : slot ∈ ends.map CallEnd.slot :=
      hall.mem_iff.2 (List.mem_range.2 (List.getElem?_eq_some_iff.1 hslot).1)
    obtain ⟨a, ha, rfl⟩ := List.mem_map.1 hin
    refine ⟨a, ha, hslot, ?_⟩
    rw [← Bool.not_eq_true]
    intro hflag
    refine hkept a ha (Bool.and_eq_true_iff.2 ⟨hflag, ?_⟩)
    show (x.watched[a.slot]?).any _ = true
    rw [hslot]
    exact Watch.Registry.isFor_iff.2 ⟨hc, rfl⟩
  · -- the call that frees the entry is for its path, too, and so it is the one that has failed
    obtain ⟨hflag, hfor⟩ := Bool.and_eq_true_iff.1 hfrees
    obtain ⟨path, hpath, hfor⟩ := (Option.any_eq_true _ _).1 hfor
    obtain ⟨hc, hparts⟩ := Watch.Registry.isFor_iff.1 hfor
    obtain ⟨b, hb, hslot, hfail⟩ := hfailed hc
    have hsame : a.slot = b.slot := by
      have hlt : a.slot < (x.watched.map Path.parts).length := by
        rw [List.length_map]
        exact (List.getElem?_eq_some_iff.1 hpath).1
      refine (List.getElem?_inj hlt hnodup).1 ?_
      rw [List.getElem?_map, List.getElem?_map, hslot, show x.watched[a.slot]? = some path from hpath]
      exact congrArg some hparts.symm
    obtain rfl := List.inj_on_of_nodup_map hslots ha hb hsame
    exact Bool.false_ne_true (hfail.symm.trans hflag)

end Site

end Session

namespace Client

open Session

variable {x : Site} {i : Nat} {history : List (Nat × Event)} {ends : List CallEnd}

/-- The end of all watches, while nothing else happens: one call is sent for each path that is believed to be watched,
and none after that. The calls end in any order, each in its own way. The operation ends with the last of them and tells
how many were answered by `true` or `false`. The paths of the others stay registered as they were; all other paths of
the connection are gone, and nothing else has changed. In whatever order the same calls end, all this is the same. -/
theorem unwatchAll_settles_each_path {sessions : List Session} (hopened : ∀ s ∈ sessions,
      ∃ connection config ticks flushesOnLeave, s = Session.opened connection config ticks flushesOnLeave)
    (hx : ((opened sessions).run history).site? i = some x) (hopen : x.session.closed = false) (now : Nat)
    (hall : (ends.map CallEnd.slot).Perm (List.range x.watched.length)) :
    ∃ y p z ps, x.launch now .unwatchAll = (x.session.next, y, p) ∧ y.settleEach x.session.next ends = (z, ps) ∧
      (x.watched.map Path.parts).Nodup ∧
      p.sent = x.watched.zipIdx.map (fun w => (w.2, .watchRemove w.1)) ∧ (∀ q ∈ ps, q.sent = []) ∧
      (p :: ps).map Progress.outcome =
        List.replicate ends.length none ++ [some (.count (.ok (ends.countP (·.reply.isFlag))))] ∧
      (∀ e, e ∈ z.registry.entries ↔ e ∈ x.registry.entries ∧
        (e.connection = x.session.id → ∃ a ∈ ends, x.watched[a.slot]? = some e.path ∧ a.reply.isFlag = false)) ∧
      (∀ d, d ≠ x.session.id → z.registry.own d = x.registry.own d) ∧
      (∃ next, z.session = { x.session with next }) ∧
      ∀ ends', (ends'.map CallEnd.call).Perm (ends.map CallEnd.call) → y.settleEach x.session.next ends' = (z, ps) := by
  have hkept := kept_run hopened history
  have hnumbered : x.Numbered := hkept.numbered i x hx
  have heach : x.registry.EachOnce := (sessions_of_site? hx).2 ▸ hkept.eachOnce
  have hmem := fun e => Site.mem_unwatched_iff heach hall (e := e)
  have hnodup : (x.watched.map Path.parts).Nodup := heach.pathsFor _
  by_cases hsome : x.watched = []
  · -- there is nothing to send, and the operation ends at once
    have hends : ends = [] := by
      rw [hsome, List.length_nil, List.range_zero] at hall
      exact List.map_eq_nil_iff.1 hall.eq_nil
    subst hends
    rw [List.map_nil, Site.unwatched_nil] at hmem
    refine ⟨x, _, x, [], Site.launch_unwatchAll_nil hopen hsome, rfl, hnodup, ?_, nofun, rfl, hmem, fun _ _ => rfl,
      ⟨_, rfl⟩, fun ends' hends' => ?_⟩
    · rw [hsome]
      rfl
    · obtain rfl := List.map_eq_nil_iff.1 hends'.eq_nil
      rfl
  · obtain ⟨n, hn⟩ : ∃ n, ends.length = n + 1 := by
      have hlength := hall.length_eq
      rw [List.length_map, List.length_range] at hlength
      exact Nat.exists_eq_succ_of_ne_zero fun hzero => hsome (List.length_eq_zero_iff.1 (hlength.symm.trans hzero))
    refine ⟨_, _, _, _, Site.launch_unwatchAll hopen hsome, Site.settleEach_watched hnumbered hsome hall, hnodup, rfl,
      ?_, ?_, hmem, fun d hd => Watch.Registry.own_afterEnds_of_ne hd, ⟨_, rfl⟩, fun ends' hends' => ?_⟩
    · intro q hq
      rcases List.mem_append.1 hq with hq | hq
      · rw [List.eq_of_mem_replicate hq]
        rfl
      · rw [List.mem_singleton.1 hq]
    · rw [hn, List.map_cons, List.map_append, List.map_replicate]
      rfl
    · rw [Site.settleEach_watched_perm hnumbered hsome hall hends']
      exact Site.settleEach_watched hnumbered hsome hall

/-- Two connections, of which one watches three paths and the other one of them. -/
def threeWatched : List (Nat × Event) := [
  (0, .launch (.watch ⟨"/a"⟩ true)), (0, .settle 0 0 (.answered (.bool true))),
  (1, .launch (.watch ⟨"/a"⟩ true)), (1, .settle 0 0 (.answered (.bool true))),
  (0, .launch (.watch ⟨"/b"⟩ true)), (0, .settle 1 0 (.answered (.bool true))),
  (0, .launch (.watch ⟨"/c"⟩ true)), (0, .settle 2 0 (.answered (.bool true)))]

/-- The call for `/c` is answered first, by `false`; then the one for `/a` times out, and the one for `/b` is answered
by nothing. So one watch has ended, and the other two are still believed to be there. -/
theorem unwatchAll_settles_each_path_of_three :
    let ends : List CallEnd := [⟨9, 2, .answered (.bool false)⟩, ⟨38, 0, .timedOut 30⟩, ⟨40, 1, .answered .null⟩]
    ∃ x y p z ps,
      ((opened [Session.opened 4 {} 1 true, Session.opened 7 {} 1 true]).run threeWatched).site? 0 = some x ∧
      x.watched = [⟨"/a"⟩, ⟨"/b"⟩, ⟨"/c"⟩] ∧
      x.launch 8 .unwatchAll = (x.session.next, y, p) ∧ y.settleEach x.session.next ends = (z, ps) ∧
      (p :: ps).map Progress.outcome = [none, none, none, some (.count (.ok 1))] ∧
      (∀ e, e ∈ z.registry.entries ↔ e ∈ x.registry.entries ∧ e.path.text ≠ "/c") ∧
      y.settleEach x.session.next ends.reverse = (z, ps) := by
  intro ends
  have hopened : ∀ s ∈ [Session.opened 4 {} 1 true, Session.opened 7 {} 1 true],
      ∃ connection config ticks flushesOnLeave, s = Session.opened connection config ticks flushesOnLeave := by
    intro s hs
    rcases List.mem_cons.1 hs with rfl | hs
    · exact ⟨4, {}, 1, true, rfl⟩
    · rw [List.mem_singleton.1 hs]
      exact ⟨7, {}, 1, true, rfl⟩
  have hheld : ∃ x ∈ ((opened [Session.opened 4 {} 1 true, Session.opened 7 {} 1 true]).run threeWatched).site? 0,
      x.session.closed = false ∧ x.session.id = 4 ∧
        (x.registry.own 4).Pairwise (fun e f => Watch.Registry.entryLe e f = true) ∧
        (x.registry.own 4).map (·.path.text) = ["/a", "/b", "/c"] ∧
        ∀ e ∈ x.registry.entries, e.path.text ∈ ["/a", "/b", "/c"] ∧ (e.path.text = "/c" → e.connection = 4) := by
    decide +kernel
  obtain ⟨x, hx, hopen, hid, hsorted, htexts, hentries⟩ := hheld
  have hwatched : x.watched = [⟨"/a"⟩, ⟨"/b"⟩, ⟨"/c"⟩] := by
    have hpaths := congrArg (List.map Path.mk) htexts
    rw [List.map_map] at hpaths
    rw [Site.watched, Watch.Registry.pathsFor, Watch.Registry.entriesFor, hid]
    exact (congrArg (List.map _) (List.mergeSort_of_pairwise hsorted)).trans hpaths
  have hall : (ends.map CallEnd.slot).Perm (List.range x.watched.length) := by
    rw [hwatched]
    decide
  obtain ⟨y, p, z, ps, hlaunch, hsettle, -, -, -, houtcome, hleft, -, -, horder⟩ :=
    unwatchAll_settles_each_path hopened hx hopen 8 hall
  refine ⟨x, y, p, z, ps, hx, hwatched, hlaunch, hsettle, houtcome, fun e => ?_,
    horder _ ((List.reverse_perm ends).map _)⟩
  rw [hleft e, hid, hwatched]
  refine and_congr_right fun he => ⟨fun hfailed hc => ?_, fun hother _ => ?_⟩
  · obtain ⟨a, ha, hslot, hfail⟩ := hfailed ((hentries e he).2 hc)
    simp only [ends, List.mem_cons, List.not_mem_nil, or_false] at ha
    rcases ha with rfl | rfl | rfl
    · exact Bool.noConfusion hfail
    · exact absurd ((congrArg Path.text (Option.some.inj hslot)).trans hc) (by decide)
    · exact absurd ((congrArg Path.text (Option.some.inj hslot)).trans hc) (by decide)
  · have htext := (hentries e he).1
    simp only [List.mem_cons, List.not_mem_nil, or_false, hother] at htext
    rcases htext with ha | hb
    · exact ⟨⟨38, 0, .timedOut 30⟩, by simp [ends], congrArg (fun text => some (Path.mk text)) ha.symm, rfl⟩
    · exact ⟨⟨40, 1, .answered .null⟩, by simp [ends], congrArg (fun text => some (Path.mk text)) hb.symm, rfl⟩

end Client

end RemoteFacts
