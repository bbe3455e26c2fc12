import Mathlib.Data.List.Forall2
import Mathlib.Data.List.Induction
import RemoteFacts.Proofs.Change
import RemoteFacts.Suppression.History

/-!
# The scopes of a history

A history of acts is told here a second time, as the scopes that it has opened, each with the calls that came while it
was open. The flag, the reports and the flushes are what this account says.

* `Scope`, `Report.Covers` : the calls of one scope, and when a report tells them;
* `Scopes`, `Scopes.step`, `Scopes.of` : the scopes that have ended and the one that is open;
* `Accounts` : whether a scope is open, and its report so far, are as the account says;
* `Accounted`, `accounted_step` : so are the answer to an act and the flushes that it makes due;
* `Reply.gives`, `Reply.takes`, `guards_step` : the guards that are given out and taken back;
* `scopes_lose_and_repeat_nothing` : after every history.

The body of an operation may do more than `Act.run` says, and others may act while it waits: this is `enter`, all these
acts, and `drop`.
-/

namespace RemoteFacts.Suppression

/-- The paths of each call that has dropped a notification in one scope. -/
abbrev Scope := List (List Path)

/-- The report counts the calls of a scope and lists the paths that they name, each once. -/
structure Report.Covers (scope : Scope) (r : Report) : Prop where
  count : r.notifications = scope.length
  distinct : (r.paths.map Path.parts).Nodup
  named : ∀ p, r.paths.contains p = true ↔ ∃ paths ∈ scope, paths.contains p = true

/-- The scopes that have ended, in order, and the one that is open. -/
structure Scopes where
  ended : List Scope
  current : Option Scope

namespace Scopes

/-- The open scope ends. -/
def finish (l : Scopes) : Scopes := ⟨l.ended ++ l.current.toList, none⟩

/-- The scopes after one act more. -/
def step (l : Scopes) : Act → Scopes
  | .enter => { l with current := some (l.current.getD []) }
  | .suppress paths => { l with current := l.current.map (· ++ [paths]) }
  | .close => l.finish
  | .drop => l.finish
  | .run notifications _ _ => if l.current.isSome then l else { l with ended := l.ended ++ [notifications] }

/-- The scopes of a history. -/
def of (acts : List Act) : Scopes := acts.foldl step ⟨[], none⟩

/-- What is answered to somebody who tries to open a scope. -/
def attempt {α : Type} (l : Scopes) (result : Except Error α) : Except Error α :=
  if l.current.isSome then .error .scopeActive else result

/-- What an operation that ends in `fault` or well answers if its scope could be opened. -/
def ran (notifications : List (List Path)) (nested : Bool) :
    Option String → Except Error (List Bool × Option (Except Error Unit))
  | some reason => .error (.internal reason)
  | none => .ok (notifications.map fun _ => true, if nested then some (.error .scopeActive) else none)

/-- The answer to an act. -/
def Answers (l : Scopes) : Act → Reply → Prop
  | .enter, .entered result => result = l.attempt (.ok ())
  | .suppress _, .suppressed b => b = l.current.isSome
  | .close, .report none => l.current = none
  | .close, .report (some r) => ∃ scope, l.current = some scope ∧ r.Covers scope
  | .drop, .dropped b => b = l.current.isSome
  | .run notifications nested fault, .ran result => result = l.attempt (ran notifications nested fault)
  | _, _ => False

end Scopes

/-- Whether an answer gives a guard out. The guard of an operation is back before it answers. -/
def Reply.gives : Reply → Bool
  | .entered (.ok ()) => true
  | _ => false

/-- Whether a guard has been taken back with an answer. -/
def Reply.takes : Reply → Bool
  | .report (some _) => true
  | .dropped held => held
  | _ => false

/-- Whether an act tries to open a scope. -/
def Act.opens : Act → Bool
  | .enter => true
  | .run .. => true
  | _ => false

/-- The holder is as the account of the scopes says: the flag is set exactly if a guard is open. -/
structure Accounts (l : Scopes) (h : Holder) : Prop where
  active : h.suppression.active = l.current.isSome
  held : h.held = l.current.isSome
  report : ∀ scope, l.current = some scope → h.suppression.report.Covers scope

/-- What an act has led to is as the account of the scopes before it says. -/
structure Accounted (l : Scopes) (h : Holder) (act : Act) (out : Reply × List Report × Holder) : Prop where
  next : Accounts (l.step act) out.2.2
  reply : l.Answers act out.1
  /-- A flush is due for each scope that ends with the act and has dropped something. -/
  due : ∃ ended, (l.step act).ended = l.ended ++ ended ∧
    List.Forall₂ (fun scope r => r.Covers scope) (ended.filter (!·.isEmpty)) out.2.1
  /-- When it is due the flag has been cleared. -/
  cleared : out.2.1 ≠ [] → out.2.2.suppression.active = false
  /-- Who finds a scope open and cannot open one changes nothing. -/
  rejected : l.current.isSome = true → act.opens = true → out.2 = ([], h)

variable {l : Scopes} {h : Holder} {s : Suppression} {r : Report} {scope : Scope} {acts : List Act}

/-! ## Reports -/

theorem covers_empty : Report.empty.Covers [] where
  count := rfl
  distinct := List.nodup_nil
  named p := by simp [Report.empty]

theorem Report.Covers.suppress (hr : r.Covers scope) (paths : List Path) :
    Report.Covers (scope ++ [paths]) ⟨r.notifications + 1, Path.insertAll r.paths paths⟩ where
  count := by simp [hr.count]
  distinct := Path.nodup_insertAll hr.distinct
  named p := by
    rw [Path.contains_insertAll, Bool.or_eq_true, hr.named]
    simp [or_and_right, exists_or]

theorem covers_flushes (hr : r.Covers scope) :
    List.Forall₂ (fun scope r => r.Covers scope) ([scope].filter (!·.isEmpty)) (flushes r) := by
  unfold flushes Report.needsFlush
  rw [hr.count]
  cases scope with
  | nil => exact List.Forall₂.nil
  | cons paths scope => exact List.Forall₂.cons hr List.Forall₂.nil

/-! ## The scope of an operation -/

theorem suppress_of_active (hs : s.active = true) (hr : s.report.Covers scope) (paths : List Path) :
    (s.suppress paths).1 = true ∧ (s.suppress paths).2.active = true ∧
      (s.suppress paths).2.report.Covers (scope ++ [paths]) := by
  unfold suppress
  rw [if_pos hs]
  exact ⟨rfl, hs, hr.suppress paths⟩

theorem suppressEach_of_active (hs : s.active = true) (hr : s.report.Covers scope) (notifications : List (List Path)) :
    (suppressEach s notifications).1 = notifications.map (fun _ => true) ∧
      (suppressEach s notifications).2.active = true ∧
      (suppressEach s notifications).2.report.Covers (scope ++ notifications) := by
  induction notifications generalizing s scope with
  | nil => exact ⟨rfl, hs, by simpa [suppressEach] using hr⟩
  | cons paths rest ih =>
    obtain ⟨hdropped, hs', hr'⟩ := suppress_of_active hs hr paths
    obtain ⟨hanswers, hactive, hcovers⟩ := ih hs' hr'
    refine ⟨?_, hactive, ?_⟩
    · simp [suppressEach, hdropped, hanswers]
    · simpa [suppressEach] using hcovers

theorem within_of_active {α : Type} (hs : s.active = true) (body : Suppression → α × Suppression) :
    s.within body = (.error .scopeActive, s) := by
  unfold within enter
  rw [if_pos hs]

/-- An operation drops its notifications, is refused another scope, and leaves no scope open. -/
theorem within_body (hs : s.active = false) (notifications : List (List Path)) (nested : Bool) :
    ∃ r, r.Covers notifications ∧
    s.within (body notifications nested) =
      (.ok ((notifications.map fun _ => true, if nested then some (.error .scopeActive) else none), r), idle) := by
  have hopen : (Suppression.mk true .empty).active = true := rfl
  obtain ⟨hanswers, hactive, hcovers⟩ := suppressEach_of_active hopen covers_empty notifications
  rw [List.nil_append] at hcovers
  refine ⟨_, hcovers, ?_⟩
  unfold within enter
  rw [if_neg (by simp [hs])]
  cases nested with
  | true => simp [body, leave, hanswers, within_of_active hactive, Except.map]
  | false => simp [body, leave, hanswers]

/-! ## One act -/

/-- When no scope is open nothing is left of those that have ended. -/
theorem accounts_idle (ended : List (List (List Path))) : Accounts ⟨ended, none⟩ .idle :=
  ⟨rfl, rfl, fun _ hscope => absurd hscope.symm (Option.some_ne_none _)⟩

/-- The end of the scope that is held, if one is. -/
theorem accounts_release (hl : Accounts l h) : Accounts l.finish h.release.2.2 ∧
    (∃ ended, l.finish.ended = l.ended ++ ended ∧
      List.Forall₂ (fun scope r => r.Covers scope) (ended.filter (!·.isEmpty)) h.release.2.1) ∧
    (h.release.2.1 ≠ [] → h.release.2.2.suppression.active = false) ∧
    h.release.1.isSome = l.current.isSome ∧
    ∀ r, h.release.1 = some r → ∃ scope, l.current = some scope ∧ r.Covers scope := by
  unfold Holder.release
  cases hcurrent : l.current with
  | none =>
    have hheld : h.held = false := by rw [hl.held, hcurrent]; rfl
    rw [if_neg (by simp [hheld])]
    refine ⟨⟨?_, ?_, nofun⟩, ⟨[], ?_, List.Forall₂.nil⟩, fun hdue => absurd rfl hdue, rfl, nofun⟩
    · rw [hl.active, hcurrent]
      rfl
    · exact hheld
    · simp [Scopes.finish, hcurrent]
  | some scope =>
    have hheld : h.held = true := by rw [hl.held, hcurrent]; rfl
    have hcovers := hl.report scope hcurrent
    rw [if_pos hheld]
    refine ⟨accounts_idle _, ⟨[scope], ?_, covers_flushes hcovers⟩, fun _ => rfl, rfl, fun r hr => ?_⟩
    · simp [Scopes.finish, hcurrent]
    · obtain rfl := Option.some.inj hr
      exact ⟨scope, rfl, hcovers⟩

theorem accounted_enter (hl : Accounts l h) : Accounted l h .enter (h.step .enter) := by
  cases hcurrent : l.current with
  | none =>
    have hactive : h.suppression.active = false := by rw [hl.active, hcurrent]; rfl
    have hstep : h.step .enter = (.entered (.ok ()), [], ⟨⟨true, .empty⟩, true⟩) := by
      simp [Holder.step, enter, hactive]
    rw [hstep]
    refine ⟨⟨rfl, rfl, fun scope hscope => ?_⟩, ?_, ⟨[], ?_, List.Forall₂.nil⟩, fun hdue => absurd rfl hdue, ?_⟩
    · obtain rfl : [] = scope := by simpa [Scopes.step, hcurrent] using hscope
      exact covers_empty
    · simp [Scopes.Answers, Scopes.attempt, hcurrent]
    · simp [Scopes.step]
    · simp [hcurrent]
  | some scope =>
    have hactive : h.suppression.active = true := by rw [hl.active, hcurrent]; rfl
    have hstep : h.step .enter = (.entered (.error .scopeActive), [], h) := by
      simp [Holder.step, enter, hactive]
    have hsame : l.step .enter = l := by
      rw [Scopes.step, hcurrent, Option.getD_some, ← hcurrent]
    rw [hstep]
    refine ⟨by rw [hsame]; exact hl, ?_, ⟨[], by simp [hsame], List.Forall₂.nil⟩, fun hdue => absurd rfl hdue,
      fun _ _ => rfl⟩
    simp [Scopes.Answers, Scopes.attempt, hcurrent]

theorem accounted_suppress (hl : Accounts l h) (paths : List Path) :
    Accounted l h (.suppress paths) (h.step (.suppress paths)) := by
  have hnone : (h.step (.suppress paths)).2.1 = [] := rfl
  refine ⟨?_, ?_, ⟨[], by simp [Scopes.step], by rw [hnone]; exact List.Forall₂.nil⟩, fun hdue => absurd rfl hdue,
    fun _ hopens => absurd hopens Bool.false_ne_true⟩
  · cases hcurrent : l.current with
    | none =>
      have hactive : h.suppression.active = false := by rw [hl.active, hcurrent]; rfl
      refine ⟨?_, ?_, ?_⟩
      · simp [Holder.step, suppress, hactive, Scopes.step, hcurrent]
      · simp [Holder.step, hl.held, Scopes.step]
      · simp [Scopes.step, hcurrent]
    | some scope =>
      have hactive : h.suppression.active = true := by rw [hl.active, hcurrent]; rfl
      obtain ⟨-, hactive', hcovers⟩ := suppress_of_active hactive (hl.report scope hcurrent) paths
      refine ⟨?_, ?_, fun scope' hscope => ?_⟩
      · simp [Holder.step, hactive', Scopes.step, hcurrent]
      · simp [Holder.step, hl.held, Scopes.step]
      · obtain rfl : scope ++ [paths] = scope' := by simpa [Scopes.step, hcurrent] using hscope
        exact hcovers
  · show (h.suppression.suppress paths).1 = l.current.isSome
    rw [← hl.active, suppress]
    split
    · next hactive => exact hactive.symm
    · next hactive => simpa using hactive

theorem accounted_run (hl : Accounts l h) (notifications : List (List Path)) (nested : Bool) (fault : Option String) :
    Accounted l h (.run notifications nested fault) (h.step (.run notifications nested fault)) := by
  cases hcurrent : l.current with
  | some scope =>
    have hactive : h.suppression.active = true := by rw [hl.active, hcurrent]; rfl
    have hstep : h.step (.run notifications nested fault) = (.ran (.error .scopeActive), [], h) := by
      simp [Holder.step, within_of_active hactive]
    have hsame : l.step (.run notifications nested fault) = l := by simp [Scopes.step, hcurrent]
    rw [hstep]
    refine ⟨by rw [hsame]; exact hl, ?_, ⟨[], by simp [hsame], List.Forall₂.nil⟩, fun hdue => absurd rfl hdue,
      fun _ _ => rfl⟩
    simp [Scopes.Answers, Scopes.attempt, hcurrent]
  | none =>
    have hactive : h.suppression.active = false := by rw [hl.active, hcurrent]; rfl
    have hheld : h.held = false := by rw [hl.held, hcurrent]; rfl
    obtain ⟨r, hcovers, hwithin⟩ := within_body hactive notifications nested
    have hstep : h.step (.run notifications nested fault) =
        (.ran (Scopes.ran notifications nested fault), flushes r, ⟨idle, false⟩) := by
      cases fault with
      | none => simp [Holder.step, hwithin, hheld, Scopes.ran]
      | some reason => simp [Holder.step, hwithin, hheld, Scopes.ran]
    have hended : l.step (.run notifications nested fault) = ⟨l.ended ++ [notifications], none⟩ := by
      simp [Scopes.step, hcurrent]
    rw [hstep]
    refine ⟨?_, ?_, ⟨[notifications], by rw [hended], covers_flushes hcovers⟩, fun _ => rfl, ?_⟩
    · rw [hended]
      exact accounts_idle _
    · simp [Scopes.Answers, Scopes.attempt, hcurrent]
    · simp [hcurrent]

/-- Every act does what the account says. -/
theorem accounted_step (hl : Accounts l h) (act : Act) : Accounted l h act (h.step act) := by
  obtain ⟨hnext, hdue, hcleared, hsome, hreport⟩ := accounts_release hl
  cases act with
  | enter => exact accounted_enter hl
  | suppress paths => exact accounted_suppress hl paths
  | close =>
    refine ⟨hnext, ?_, hdue, hcleared, fun _ hopens => absurd hopens Bool.false_ne_true⟩
    show l.Answers .close (.report h.release.1)
    cases hr : h.release.1 with
    | none =>
      rw [hr] at hsome
      exact Option.not_isSome_iff_eq_none.1 (by simp [← hsome])
    | some r => exact hreport r hr
  | drop => exact ⟨hnext, hsome, hdue, hcleared, fun _ hopens => absurd hopens Bool.false_ne_true⟩
  | run notifications nested fault => exact accounted_run hl notifications nested fault

/-- The guard of a scope is given out when it opens and taken back when it ends. -/
theorem guards_step {act : Act} {reply : Reply} (hreply : l.Answers act reply) :
    (l.step act).current.isSome.toNat + reply.takes.toNat = l.current.isSome.toNat + reply.gives.toNat := by
  cases act with
  | enter =>
    cases reply with
    | entered result =>
      obtain rfl : result = l.attempt (.ok ()) := hreply
      cases hcurrent : l.current with
      | none => simp [Scopes.step, Scopes.attempt, Reply.takes, Reply.gives, hcurrent]
      | some scope => simp [Scopes.step, Scopes.attempt, Reply.takes, Reply.gives, hcurrent]
    | _ => exact hreply.elim
  | suppress paths =>
    cases reply with
    | suppressed b => simp [Scopes.step, Reply.takes, Reply.gives]
    | _ => exact hreply.elim
  | close =>
    cases reply with
    | report r =>
      cases r with
      | none =>
        have hnone : l.current = none := hreply
        simp [Scopes.step, Scopes.finish, Reply.takes, Reply.gives, hnone]
      | some r =>
        obtain ⟨scope, hsome, -⟩ := hreply
        simp [Scopes.step, Scopes.finish, Reply.takes, Reply.gives, hsome]
    | _ => exact hreply.elim
  | drop =>
    cases reply with
    | dropped held =>
      obtain rfl : held = l.current.isSome := hreply
      simp [Scopes.step, Scopes.finish, Reply.takes, Reply.gives]
    | _ => exact hreply.elim
  | run notifications nested fault =>
    cases reply with
    | ran result =>
      cases hcurrent : l.current with
      | none => simp [Scopes.step, Reply.takes, Reply.gives, hcurrent]
      | some scope => simp [Scopes.step, Reply.takes, Reply.gives, hcurrent]
    | _ => exact hreply.elim

/-! ## Whole histories -/

/-- What is held after a history. -/
def Holder.after (h : Holder) (acts : List Act) : Holder := acts.foldl (fun h act => (h.step act).2.2) h

theorem Holder.run_snoc (act : Act) : h.run (acts ++ [act]) = h.run acts ++ [(h.after acts).step act] := by
  induction acts generalizing h with
  | nil => rfl
  | cons a acts ih =>
    show h.step a :: (h.step a).2.2.run (acts ++ [act]) = h.step a :: ((h.step a).2.2.run acts ++ [_])
    rw [ih]
    rfl

theorem Holder.after_snoc (act : Act) : h.after (acts ++ [act]) = ((h.after acts).step act).2.2 := by
  simp [Holder.after, List.foldl_append]

theorem Scopes.of_snoc (act : Act) : Scopes.of (acts ++ [act]) = (Scopes.of acts).step act := by
  simp [Scopes.of, List.foldl_append]

theorem accounts_run (acts : List Act) : Accounts (Scopes.of acts) (Holder.idle.after acts) := by
  induction acts using List.reverseRecOn with
  | nil => exact accounts_idle []
  | append_singleton acts act ih =>
    rw [Scopes.of_snoc, Holder.after_snoc]
    exact (accounted_step ih act).next

/-- A scope that has dropped something is flushed once, when it ends. -/
theorem flushes_run (acts : List Act) :
    List.Forall₂ (fun scope r => r.Covers scope) ((Scopes.of acts).ended.filter (!·.isEmpty))
      ((Holder.idle.run acts).flatMap (·.2.1)) := by
  induction acts using List.reverseRecOn with
  | nil => exact List.Forall₂.nil
  | append_singleton acts act ih =>
    obtain ⟨ended, hended, hdue⟩ := (accounted_step (accounts_run acts) act).due
    rw [Scopes.of_snoc, Holder.run_snoc, hended, List.filter_append, List.flatMap_append]
    refine List.rel_append ih ?_
    simpa using hdue

/-- Of the guards that have been given out one is not back while a scope is open, and otherwise none. -/
theorem guards_run (acts : List Act) : (Holder.idle.run acts).countP (·.1.gives) =
    (Holder.idle.run acts).countP (·.1.takes) + (Scopes.of acts).current.isSome.toNat := by
  induction acts using List.reverseRecOn with
  | nil => rfl
  | append_singleton acts act ih =>
    have hstep := guards_step (accounted_step (accounts_run acts) act).reply
    have hone : ∀ b : Bool, (if b then 1 else 0) = b.toNat := Bool.rec rfl rfl
    rw [Scopes.of_snoc, Holder.run_snoc, List.countP_append, List.countP_append, List.countP_singleton,
      List.countP_singleton, hone, hone, ih]
    omega

/-- After every history the flag and the running report are those of the scope that is open; the flag is set exactly if
one guard is out, and otherwise none is. There has been exactly one flush for each scope that has ended and had dropped
something, with its report. And the next act, whatever it is, is answered as the account says. -/
theorem scopes_lose_and_repeat_nothing (acts : List Act) :
    Accounts (Scopes.of acts) (Holder.idle.after acts) ∧
    (Holder.idle.run acts).countP (·.1.gives) =
      (Holder.idle.run acts).countP (·.1.takes) + (Holder.idle.after acts).suppression.active.toNat ∧
    List.Forall₂ (fun scope r => r.Covers scope) ((Scopes.of acts).ended.filter (!·.isEmpty))
      ((Holder.idle.run acts).flatMap (·.2.1)) ∧
    ∀ act, Accounted (Scopes.of acts) (Holder.idle.after acts) act ((Holder.idle.after acts).step act) := by
  have haccounts := accounts_run acts
  have hguards := guards_run acts
  rw [← haccounts.active] at hguards
  exact ⟨haccounts, hguards, flushes_run acts, accounted_step haccounts⟩

end RemoteFacts.Suppression
