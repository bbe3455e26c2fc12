import RemoteFacts.Proofs.Spelling.Watches
import RemoteFacts.Session.Event

/-!
# Sessions under other spellings

* `Rpc.Notification.changedPaths_congr`, `Suppression.Same` : what a notification reports and what a scope has dropped;
* `Session.Request`, `Session.Site.reply`, `Session.Site.serve` : what is asked of a session and of the registry, one
  after the other, and what comes of it; `Session.Site.figures` : the statistics;
* `Session.Event.Respelled`, `Session.Request.Respelled` : the same request with its paths spelled otherwise;
* `Session.Answer.Same`, `Session.Site.Same` : answers and states that say the same (`Site.Same.step`,
  `Site.Same.serve`);
* `Session.Site.spelling_never_matters` : no answer and no figure depends on how any path in any request is spelled.
-/

namespace RemoteFacts

/-! ## Notifications and scopes -/

/-- The paths that a notification reports are the same, in the same order, whatever their spelling. -/
theorem Rpc.Notification.changedPaths_congr {n m : Notification} (hmethod : n.method = m.method)
    (hpaths : (paths? n.params).map (List.map Path.parts) = (paths? m.params).map (List.map Path.parts)) :
    n.changedPaths.map Path.parts = m.changedPaths.map Path.parts := by
  have hnamed : ((paths? n.params).getD []).map Path.parts = ((paths? m.params).getD []).map Path.parts := by
    rcases option_same hpaths with ⟨hn, hm⟩ | ⟨ps, qs, hn, hm, hsame⟩
    · rw [hn, hm]
    · rw [hn, hm]
      exact hsame
  unfold changedPaths
  rw [hmethod]
  split
  · exact Path.sort_congr (Path.latest_congr (filter_same hnamed fun _ _ hp => Path.isAbsolute_congr hp))
  · rfl

theorem Transient.dropScanFor_congr {t : Transient} {p q : Path} (h : p.parts = q.parts) :
    t.dropScanFor p = t.dropScanFor q := by
  have haffected : ∀ s : Dated AncestorScan, s.value.isAffectedBy p = s.value.isAffectedBy q := fun s =>
    AncestorScan.isAffectedBy_congr (Path.beq_iff.2 h)
  simp only [dropScanFor, haffected]

namespace Suppression

/-- What a report says, however its paths are spelled. -/
def Report.meaning (r : Report) : Nat × List (List Part) := (r.notifications, r.paths.map Path.parts)

/-- Both have a scope open or neither has, and the reports say the same. -/
structure Same (s t : Suppression) : Prop where
  active : s.active = t.active
  report : s.report.meaning = t.report.meaning

theorem Same.suppress {s t : Suppression} {ps qs : List Path} (h : s.Same t)
    (hpaths : ps.map Path.parts = qs.map Path.parts) :
    (s.suppress ps).1 = (t.suppress qs).1 ∧ (s.suppress ps).2.Same (t.suppress qs).2 := by
  have hcount : s.report.notifications = t.report.notifications := congrArg Prod.fst h.report
  have hnamed : s.report.paths.map Path.parts = t.report.paths.map Path.parts := congrArg Prod.snd h.report
  unfold Suppression.suppress
  rw [h.active]
  split
  · exact ⟨rfl, rfl, Prod.ext (congrArg (· + 1) hcount) (Path.insertAll_congr hnamed hpaths)⟩
  · exact ⟨rfl, h⟩

theorem Same.enter {s t : Suppression} (h : s.Same t) : s.enter = t.enter := by
  rw [Suppression.enter, Suppression.enter, h.active]

end Suppression

namespace Session

/-! ## Requests -/

/-- What is asked of a session, or by a connection of the registry. -/
inductive Request where
  | session (event : Event)
  | registry (c : Watch.ConnectionId) (ask : Watch.Ask)

/-- What comes of it. -/
inductive Reply where
  | session (answer : Answer)
  | registry (told : Watch.Told)

/-- The statistics of both caches, their sizes, and the number of watches. -/
structure Figures where
  existence : Cache.Stats
  existenceSize : Nat
  truename : Cache.Stats
  truenameSize : Nat
  watches : Nat
  deriving DecidableEq

namespace Site

def figures (x : Site) : Figures where
  existence := x.session.store.existence.stats
  existenceSize := x.session.store.existence.size
  truename := x.session.store.truename.stats
  truenameSize := x.session.store.truename.size
  watches := x.registry.size

/-- What a request at moment `now` answers and changes. -/
def reply (now : Nat) (request : Request) (x : Site) : Reply × Site :=
  match request with
  | .session event => (.session (x.step now event).1, (x.step now event).2)
  | .registry c ask =>
    (.registry (x.registry.reply ⟨now, c, ask⟩).1, { x with registry := (x.registry.reply ⟨now, c, ask⟩).2 })

/-- The answers to requests, each at its moment and with the figures after it. -/
def serve (x : Site) : List (Nat × Request) → List (Reply × Figures)
  | [] => []
  | (now, request) :: requests =>
    let (reply, x) := x.reply now request
    (reply, x.figures) :: x.serve requests

end Site

/-! ## Other spellings -/

/-- An event, and the same one with its paths spelled otherwise. There is none for an operation that may have to
wait. -/
inductive Event.Respelled : Event → Event → Prop
  | askExists {p q : Path} (h : p.parts = q.parts) : Respelled (.askExists p) (.askExists q)
  | askTruename {p q : Path} (h : p.parts = q.parts) : Respelled (.askTruename p) (.askTruename q)
  | recordExists {p q : Path} (h : p.parts = q.parts) (value : Bool) :
      Respelled (.recordExists p value) (.recordExists q value)
  | recordTruename {p q target target' : Path} (h : p.parts = q.parts) (htarget : target.parts = target'.parts) :
      Respelled (.recordTruename p target) (.recordTruename q target')
  | invalidate {p q : Path} (h : p.parts = q.parts) : Respelled (.invalidate p) (.invalidate q)
  | notify {n m : Rpc.Notification} (hmethod : n.method = m.method)
      (hpaths : (Rpc.Notification.paths? n.params).map (List.map Path.parts) =
        (Rpc.Notification.paths? m.params).map (List.map Path.parts)) :
      Respelled (.notify n) (.notify m)
  | enterScope : Respelled .enterScope .enterScope
  | leaveScope : Respelled .leaveScope .leaveScope
  | flush : Respelled .flush .flush
  | release : Respelled .release .release
  | forgetWatches : Respelled .forgetWatches .forgetWatches
  | close : Respelled .close .close

/-- The same for a request. -/
inductive Request.Respelled : Request → Request → Prop
  | session {e f : Event} (h : e.Respelled f) : Respelled (.session e) (.session f)
  | registry (c : Watch.ConnectionId) {ask ask' : Watch.Ask} (h : ask.Respelled ask') :
      Respelled (.registry c ask) (.registry c ask')

/-- Answers that say the same: true names and the paths of reports by parts and in the same order, and all others are
equal. -/
inductive Answer.Same : Answer → Answer → Prop
  | refl (a : Answer) : Same a a
  | truename {known known' : Option Path} (h : known.map Path.parts = known'.map Path.parts) :
      Same (.truename known) (.truename known')
  | left {report report' : Option Suppression.Report}
      (h : report.map Suppression.Report.meaning = report'.map Suppression.Report.meaning) :
      Same (.left report) (.left report')

theorem Answer.Same.of_eq {a b : Answer} (h : a = b) : a.Same b := h ▸ refl a

/-- The same for a reply. -/
inductive Reply.Same : Reply → Reply → Prop
  | session {a b : Answer} (h : a.Same b) : Same (.session a) (.session b)
  | registry {a b : Watch.Told} (h : a.Same b) : Same (.registry a) (.registry b)

/-- A session without its facts and its scope. -/
def bare (s : Session) : Session := { s with store := .empty none none, suppression := .idle }

namespace Site

variable {x y : Site} {p q : Path} {ps qs : List Path} {store store' : FactStore} {now : Nat}

/-- The facts, the scopes and the registries say the same, and all else is equal. -/
structure Same (x y : Site) : Prop where
  store : x.session.store.Same y.session.store
  suppression : x.session.suppression.Same y.session.suppression
  registry : x.registry.Same y.registry
  bare : x.session.bare = y.session.bare

namespace Same

theorem refl (x : Site) : x.Same x := ⟨.refl _, ⟨rfl, rfl⟩, rfl, rfl⟩

theorem figures (h : x.Same y) : x.figures = y.figures := by
  rw [Site.figures, Site.figures, h.store.existence.stats, h.store.existence.size, h.store.truename.stats,
    h.store.truename.size, h.registry.size]

theorem withStore (h : x.Same y) (hstore : store.Same store') : (x.withStore store).Same (y.withStore store') :=
  ⟨hstore, h.suppression, h.registry, h.bare⟩

theorem applyChange (h : x.Same y) (hp : p.parts = q.parts) : (x.applyChange p).Same (y.applyChange q) := by
  have htransient : x.session.transient = y.session.transient := (congrArg Session.transient h.bare :)
  have hscan : x.session.transient.dropScanFor p = y.session.transient.dropScanFor q := by
    rw [htransient, Transient.dropScanFor_congr hp]
  refine ⟨h.store.invalidatePath hp, h.suppression, h.registry, ?_⟩
  exact congrArg₂ (fun (s : Session) transient => { s with transient }) h.bare hscan

theorem applyChanges (h : x.Same y) (hps : ps.map Path.parts = qs.map Path.parts) :
    (ps.foldl Site.applyChange x).Same (qs.foldl Site.applyChange y) := by
  have hall := forall₂_same hps
  clear hps
  induction hall generalizing x y with
  | nil => exact h
  | cons hp _ ih =>
    rw [List.foldl_cons, List.foldl_cons]
    exact ih (h.applyChange hp)

/-- A notification meets the same, inside a scope and outside. -/
theorem notify {n m : Rpc.Notification} (h : x.Same y)
    (hpaths : n.changedPaths.map Path.parts = m.changedPaths.map Path.parts) :
    (x.notify n).1 = (y.notify m).1 ∧ (x.notify n).2.Same (y.notify m).2 := by
  have hcount := length_same hpaths
  obtain ⟨hdropped, hscope⟩ := h.suppression.suppress hpaths
  unfold Site.notify
  cases hn : n.changedPaths with
  | nil =>
    rw [hn] at hpaths
    rw [List.map_eq_nil_iff.1 hpaths.symm]
    exact ⟨rfl, h⟩
  | cons p ps =>
    rw [hn] at hpaths hcount hdropped hscope
    cases hm : m.changedPaths with
    | nil =>
      rw [hm] at hpaths
      contradiction
    | cons q qs =>
      rw [hm] at hpaths hcount hdropped hscope
      dsimp only
      cases hx : x.session.suppression.suppress (p :: ps) with
      | mk dropped scope =>
        cases hy : y.session.suppression.suppress (q :: qs) with
        | mk dropped' scope' =>
          rw [hx, hy] at hdropped hscope
          obtain rfl : dropped = dropped' := hdropped
          cases dropped with
          | true => exact ⟨rfl, h.store, hscope, h.registry, h.bare⟩
          | false => exact ⟨congrArg Effect.applied hcount, h.applyChanges hpaths⟩

theorem leaveScope (h : x.Same y) :
    x.leaveScope.1.meaning = y.leaveScope.1.meaning ∧ x.leaveScope.2.Same y.leaveScope.2 := by
  have hflushes : x.session.flushesOnLeave = y.session.flushesOnLeave := (congrArg Session.flushesOnLeave h.bare :)
  have hneeds : x.session.suppression.report.needsFlush = y.session.suppression.report.needsFlush :=
    congrArg (fun m : Nat × List (List Part) => decide (0 < m.1)) h.suppression.report
  refine ⟨h.suppression.report, ?_, ⟨rfl, rfl⟩, h.registry,
    congrArg (fun s : Session => { s with hostScope := false }) h.bare⟩
  unfold Site.leaveScope Suppression.leave
  dsimp only
  rw [hflushes, hneeds]
  split
  · exact h.store.flush
  · exact h.store

theorem leaveHostScope (h : x.Same y) :
    x.leaveHostScope.1.map Suppression.Report.meaning = y.leaveHostScope.1.map Suppression.Report.meaning ∧
      x.leaveHostScope.2.Same y.leaveHostScope.2 := by
  have hheld : x.session.hostScope = y.session.hostScope := (congrArg Session.hostScope h.bare :)
  obtain ⟨hreport, hthen⟩ := h.leaveScope
  unfold Site.leaveHostScope
  rw [hheld]
  split
  · exact ⟨congrArg some hreport, hthen⟩
  · exact ⟨rfl, h⟩

theorem enterHostScope (h : x.Same y) :
    x.enterHostScope.1 = y.enterHostScope.1 ∧ x.enterHostScope.2.Same y.enterHostScope.2 := by
  unfold Site.enterHostScope
  rw [h.suppression.enter]
  split
  · exact ⟨rfl, h⟩
  · exact ⟨rfl, h.store, ⟨rfl, rfl⟩, h.registry, congrArg (fun s : Session => { s with hostScope := true }) h.bare⟩

theorem release (h : x.Same y) : x.release.Same y.release :=
  ⟨h.store, h.suppression, h.registry, congrArg (fun s : Session => { s with transient := .empty }) h.bare⟩

theorem flush (h : x.Same y) : x.flush.Same y.flush := (h.withStore h.store.flush).release

theorem forgetWatches (h : x.Same y) :
    x.forgetWatches.1 = y.forgetWatches.1 ∧ x.forgetWatches.2.Same y.forgetWatches.2 := by
  have hid : x.session.id = y.session.id := (congrArg Session.id h.bare :)
  obtain ⟨hcount, hthen⟩ := h.registry.clearFor y.session.id
  unfold Site.forgetWatches
  rw [hid]
  exact ⟨hcount, h.store, h.suppression, hthen, h.bare⟩

theorem close (h : x.Same y) : x.close.Same y.close := by
  have hclosed : x.session.closed = y.session.closed := (congrArg Session.closed h.bare :)
  unfold Site.close
  rw [hclosed]
  split
  · exact h
  · refine flush (forgetWatches ?_).2
    exact ⟨h.store, h.suppression, h.registry, congrArg (fun s : Session => { s with closed := true }) h.bare⟩

/-- An event answers the same and leaves the same. -/
theorem step {e f : Event} (h : x.Same y) (he : e.Respelled f) (now : Nat) :
    (x.step now e).1.Same (y.step now f).1 ∧ (x.step now e).2.Same (y.step now f).2 := by
  cases he with
  | askExists hp =>
    obtain ⟨hknown, hstore⟩ := h.store.exists? hp now
    exact ⟨Answer.Same.of_eq (congrArg Answer.existence hknown), h.withStore hstore⟩
  | askTruename hp =>
    obtain ⟨hknown, hstore⟩ := h.store.truename? hp now
    exact ⟨Answer.Same.truename hknown, h.withStore hstore⟩
  | recordExists hp value => exact ⟨Answer.Same.refl _, h.withStore (h.store.recordExists hp value)⟩
  | recordTruename hp htarget => exact ⟨Answer.Same.refl _, h.withStore (h.store.recordTruename hp htarget)⟩
  | invalidate hp => exact ⟨Answer.Same.refl _, h.withStore (h.store.invalidatePath hp)⟩
  | notify hmethod hpaths =>
    obtain ⟨heffect, hthen⟩ := h.notify (Rpc.Notification.changedPaths_congr hmethod hpaths)
    exact ⟨Answer.Same.of_eq (congrArg Answer.effect heffect), hthen⟩
  | enterScope =>
    obtain ⟨hresult, hthen⟩ := h.enterHostScope
    exact ⟨Answer.Same.of_eq (congrArg Answer.entered hresult), hthen⟩
  | leaveScope =>
    obtain ⟨hreport, hthen⟩ := h.leaveHostScope
    exact ⟨Answer.Same.left hreport, hthen⟩
  | flush => exact ⟨Answer.Same.refl _, h.flush⟩
  | release => exact ⟨Answer.Same.refl _, h.release⟩
  | forgetWatches =>
    obtain ⟨hcount, hthen⟩ := h.forgetWatches
    exact ⟨Answer.Same.of_eq (congrArg Answer.count hcount), hthen⟩
  | close => exact ⟨Answer.Same.refl _, h.close⟩

theorem reply {a b : Request} (h : x.Same y) (hab : a.Respelled b) (now : Nat) :
    (x.reply now a).1.Same (y.reply now b).1 ∧ (x.reply now a).2.Same (y.reply now b).2 := by
  cases hab with
  | session he =>
    obtain ⟨hanswer, hthen⟩ := h.step he now
    exact ⟨Reply.Same.session hanswer, hthen⟩
  | registry c hask =>
    obtain ⟨htold, hthen⟩ := h.registry.reply hask c now
    exact ⟨Reply.Same.registry htold, h.store, h.suppression, hthen, h.bare⟩

/-- So it goes on, request after request. -/
theorem serve {requests requests' : List (Nat × Request)} (h : x.Same y)
    (hrequests : List.Forall₂ (fun a b => a.1 = b.1 ∧ a.2.Respelled b.2) requests requests') :
    List.Forall₂ (fun a b => a.1.Same b.1 ∧ a.2 = b.2) (x.serve requests) (y.serve requests') := by
  induction hrequests generalizing x y with
  | nil => exact List.Forall₂.nil
  | cons hab _ ih =>
    obtain ⟨hmoment, hab⟩ := hab
    obtain ⟨hreply, hthen⟩ := h.reply hab _
    unfold Site.serve
    dsimp only
    rw [← hmoment]
    exact List.Forall₂.cons ⟨hreply, hthen.figures⟩ (ih hthen)

end Same

/-- The spelling of a path never matters. Two spellings are of one path just when slashes, and a `.` inside or at the
end, lead from one to the other. Ask anything of a session and of the registry it shares, one request after the other,
and ask the same again with any of the paths spelled otherwise: the answers are the same one by one, with true names,
reports and listings compared by parts and in order, and so are the statistics after each of them. -/
theorem spelling_never_matters :
    (∀ p q : Path, p.parts = q.parts ↔ Relation.EqvGen Path.Padded p q) ∧
    ∀ (x : Site) (requests requests' : List (Nat × Request)),
      List.Forall₂ (fun a b => a.1 = b.1 ∧ a.2.Respelled b.2) requests requests' →
      List.Forall₂ (fun a b => a.1.Same b.1 ∧ a.2 = b.2) (x.serve requests) (x.serve requests') :=
  ⟨fun _ _ => Path.parts_eq_iff, fun x _ _ h => (Same.refl x).serve h⟩

/-- A report of one changed path. -/
def changed (p : String) : Rpc.Notification := ⟨"fs.changed", .object [("paths", .array [.text p])]⟩

/-- Facts about a directory and a file in it, a watch, a change of the file inside a scope and one outside, in these
spellings. -/
def visit (directory file : String) : List (Nat × Request) := [
  (0, .session (.recordTruename ⟨directory⟩ ⟨file⟩)), (1, .session (.recordExists ⟨file⟩ true)),
  (2, .registry 4 (.op (.register ⟨directory⟩))), (3, .session .enterScope), (4, .session (.notify (changed file))),
  (5, .session .leaveScope), (6, .session (.recordExists ⟨directory⟩ true)), (7, .session (.notify (changed file))),
  (8, .session (.askExists ⟨directory⟩)), (9, .registry 4 .list)]

/-- The scope flushes two facts and the change outside of it drops one, so that nothing is known at the end, in either
spelling. -/
theorem spelling_never_matters_of_visit :
    let x : Site := ⟨Session.opened 4 {} 1 true, .empty⟩
    List.Forall₂ (fun a b => a.1.Same b.1 ∧ a.2 = b.2) (x.serve (visit "/a" "/a/b")) (x.serve (visit "/a/." "/a//b")) ∧
      (x.serve (visit "/a" "/a/b")).map
          (fun a => (a.2.existence.invalidations, a.2.truename.invalidations, a.2.watches)) =
        [(0, 0, 0), (0, 0, 0), (0, 0, 1), (0, 0, 1), (0, 0, 1), (1, 1, 1), (1, 1, 1), (2, 1, 1), (2, 1, 1),
          (2, 1, 1)] := by
  intro x
  obtain ⟨hspelled, hserved⟩ := spelling_never_matters
  have hdirectory : (⟨"/a"⟩ : Path).parts = (⟨"/a/."⟩ : Path).parts :=
    (hspelled _ _).2 (.rel _ _ (.atEnd (by decide) (Or.inr rfl)))
  have hfile : (⟨"/a/b"⟩ : Path).parts = (⟨"/a//b"⟩ : Path).parts :=
    (hspelled _ _).2 (.rel _ _ (.inside "/a" "b" (Or.inl rfl)))
  have hchanged : (Event.notify (changed "/a/b")).Respelled (.notify (changed "/a//b")) :=
    .notify rfl (congrArg (fun parts => some [parts]) hfile)
  refine ⟨hserved x _ _ ?_, by decide +kernel⟩
  exact .cons ⟨rfl, .session (.recordTruename hdirectory hfile)⟩ <| .cons ⟨rfl, .session (.recordExists hfile true)⟩ <|
    .cons ⟨rfl, .registry 4 (.op (.register hdirectory))⟩ <| .cons ⟨rfl, .session .enterScope⟩ <|
    .cons ⟨rfl, .session hchanged⟩ <| .cons ⟨rfl, .session .leaveScope⟩ <|
    .cons ⟨rfl, .session (.recordExists hdirectory true)⟩ <| .cons ⟨rfl, .session hchanged⟩ <|
    .cons ⟨rfl, .session (.askExists hdirectory)⟩ <| .cons ⟨rfl, .registry 4 .list⟩ .nil

end Site

end Session

end RemoteFacts
