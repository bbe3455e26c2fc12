import RemoteFacts.Proofs.Session.Table

/-!
# One operation more

* `stage?_joined`, `wait_joined`, `remove_joined`, `finish_joined` : what becomes of the new operation does not touch
  the others, and when it has ended the site is as it was but for the next name (`Site.parted`);
* `wait_enlist`, `finish_enlist` : the same of an operation that has no queue to wait in.
-/

namespace RemoteFacts.Session.Site

/-- A site that an operation has come to and left. -/
def parted (x : Site) (s : Suppression) : Site :=
  { x with session := { x.session with suppression := s, next := x.session.next + 1 } }

variable {x : Site} {operation : Operation} {stage next : Stage} {s : Suppression} {desk : List FlightId}

theorem flight?_joined (hx : x.Numbered) :
    (x.joined operation stage s desk).flight? x.session.next = some ⟨x.session.next, operation, stage⟩ := by
  have hnone : x.session.flights.find? (fun f => f.id == x.session.next) = none := by
    rw [List.find?_eq_none]
    intro f hf
    simpa using Nat.ne_of_lt (hx.flights f hf)
  rw [flight?, joined, List.find?_append, hnone, Option.none_or, List.find?_singleton, if_pos (beq_self_eq_true _)]

theorem stage?_joined (hx : x.Numbered) : (x.joined operation stage s desk).stage? x.session.next = some stage := by
  rw [stage?, flight?_joined hx]
  rfl

theorem since?_joined (hx : x.Numbered) : (x.joined operation stage s desk).since? x.session.next = stage.since? :=
  since?_of_stage? (stage?_joined hx)

/-! ## The last of the table -/

theorem map_flights_snoc (hx : x.Numbered) : (x.session.flights ++ [Flight.mk x.session.next operation stage]).map
      (fun f => if f.id == x.session.next then { f with stage := next } else f) =
    x.session.flights ++ [⟨x.session.next, operation, next⟩] := by
  have hothers : (x.session.flights.map fun f => if f.id == x.session.next then { f with stage := next } else f) =
      x.session.flights := by
    refine (List.map_congr_left fun f hf => ?_).trans (List.map_id _)
    rw [if_neg (by simpa using Nat.ne_of_lt (hx.flights f hf))]
    rfl
  rw [List.map_append, hothers, List.map_singleton, if_pos (beq_self_eq_true _)]

theorem filter_flights_snoc (hx : x.Numbered) :
    (x.session.flights ++ [Flight.mk x.session.next operation stage]).filter (fun f => !(f.id == x.session.next)) =
      x.session.flights := by
  rw [List.filter_append, List.filter_eq_self.2]
  · simp
  · intro f hf
    simpa using Nat.ne_of_lt (hx.flights f hf)

/-! ## An operation that has come to the gate -/

/-- The new operation alone goes to its next place. -/
theorem wait_joined (hx : x.Numbered) :
    (x.joined operation stage s desk).wait x.session.next next = x.joined operation next s desk := by
  rw [wait, joined, joined]
  simp only [map_flights_snoc hx]

theorem erase_desk (hx : x.Numbered) : (x.session.desk ++ [x.session.next]).erase x.session.next = x.session.desk := by
  have habsent : x.session.next ∉ x.session.desk := fun hin => Nat.lt_irrefl _ (hx.desk _ hin)
  rw [List.erase_append_right _ habsent, List.erase_cons_head, List.append_nil]

/-- Of the new operation nothing is left but its name. -/
theorem remove_joined (hx : x.Numbered) (hdesk : desk = x.session.desk ∨ desk = x.session.desk ++ [x.session.next]) :
    (x.joined operation stage s desk).remove x.session.next = x.parted s := by
  have hgate : (x.session.gate ++ [x.session.next]).erase x.session.next = x.session.gate := by
    rw [List.erase_append_right _ fun hin => Nat.lt_irrefl _ (hx.gate _ hin), List.erase_cons_head, List.append_nil]
  have hleft : desk.erase x.session.next = x.session.desk := by
    rcases hdesk with rfl | rfl
    · exact List.erase_of_not_mem fun hin => Nat.lt_irrefl _ (hx.desk _ hin)
    · exact erase_desk hx
  rw [remove, joined, parted]
  simp only [filter_flights_snoc hx, hgate, hleft]

theorem finish_joined {outcome : Outcome} (hx : x.Numbered)
    (hdesk : desk = x.session.desk ∨ desk = x.session.desk ++ [x.session.next]) :
    (x.joined operation stage s desk).finish x.session.next outcome =
      (x.parted s, ⟨[], some (operation.report outcome)⟩) := by
  rw [finish, flight?_joined hx, remove_joined hx hdesk]

/-! ## An operation without a queue -/

theorem wait_enlist (hx : x.Numbered) :
    (x.enlist operation stage).2.wait x.session.next next = (x.enlist operation next).2 := by
  rw [wait, enlist, enlist]
  simp only [map_flights_snoc hx]

theorem finish_enlist {outcome : Outcome} (hx : x.Numbered) :
    (x.enlist operation stage).2.finish x.session.next outcome =
      (x.parted x.session.suppression, ⟨[], some (operation.report outcome)⟩) := by
  have hnew : x.stage? x.session.next = none := hx.stage?_eq_none (Nat.le_refl _)
  have hgate : x.session.gate.erase x.session.next = x.session.gate :=
    List.erase_of_not_mem fun hin => Nat.lt_irrefl _ (hx.gate _ hin)
  have hdesk : x.session.desk.erase x.session.next = x.session.desk :=
    List.erase_of_not_mem fun hin => Nat.lt_irrefl _ (hx.desk _ hin)
  rw [finish, flight?_enlist hnew, if_pos rfl, remove, enlist, parted]
  simp only [filter_flights_snoc hx, hgate, hdesk]

end RemoteFacts.Session.Site
