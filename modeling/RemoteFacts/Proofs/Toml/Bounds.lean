import RemoteFacts.Toml.Reader

/-!
# Documents hold no numbers that are too large

* `Bounded`, `Draft.Bounded` : every whole number in a value, finished or not, fits 64 bits with a sign;
* `Lexer.bounded_of_number?`, `Reader.boundedWithin` : so it is with the values that are read;
* `Draft.bounded_of_assign`, `bounded_of_atPath`, `bounded_of_openTable`, `bounded_of_openRow` : so it stays when lines
  are added to each other;
* `bounded_of_parse?` : so it is with the table that a document stands for.
-/

namespace RemoteFacts.Toml

/-- Every whole number in a value fits 64 bits with a sign. -/
inductive Bounded : Toml → Prop where
  | text (s : String) : Bounded (.text s)
  | integer {n : Int} : Width.minInt64 ≤ n → n ≤ Width.maxInt64 → Bounded (.integer n)
  | real (literal : String) : Bounded (.real literal)
  | boolean (b : Bool) : Bounded (.boolean b)
  | moment (literal : String) : Bounded (.moment literal)
  | array {items : List Toml} : (∀ v ∈ items, Bounded v) → Bounded (.array items)
  | table {fields : List (String × Toml)} : (∀ f ∈ fields, Bounded f.2) → Bounded (.table fields)

variable {v : Toml} {cs rest : List Char}

/-! ## Numbers -/

namespace Lexer

theorem bounded_of_integer? {n : Int} (h : integer? n = some v) : v.Bounded := by
  unfold integer? at h
  split at h
  · next hn => cases h; exact .integer hn.1 hn.2
  · contradiction

theorem bounded_of_radix? {base : Nat} {isDigit : Char → Bool} (h : radix? base isDigit cs = some (v, rest)) :
    v.Bounded := by
  obtain ⟨_, -, h⟩ := Option.bind_eq_some_iff.1 h
  obtain ⟨w, hw, h⟩ := Option.bind_eq_some_iff.1 h
  cases h
  exact bounded_of_integer? hw

theorem bounded_of_unsigned? {negative : Bool} (h : unsigned? negative cs = some (v, rest)) : v.Bounded := by
  unfold unsigned? at h
  split at h
  · cases h; exact .real _
  · cases h; exact .real _
  · obtain ⟨⟨ds, rest₁⟩, -, h⟩ := Option.bind_eq_some_iff.1 h
    obtain ⟨⟨frac, rest₂⟩, -, h⟩ := Option.bind_eq_some_iff.1 h
    obtain ⟨⟨expo, rest₃⟩, -, h⟩ := Option.bind_eq_some_iff.1 h
    dsimp only at h
    split at h
    · obtain ⟨w, hw, h⟩ := Option.bind_eq_some_iff.1 h
      cases h
      exact bounded_of_integer? hw
    · split at h
      · contradiction
      · cases h; exact .real _

theorem bounded_of_number? (h : number? cs = some (v, rest)) : v.Bounded := by
  unfold number? at h
  split at h
  · exact bounded_of_radix? h
  · exact bounded_of_radix? h
  · exact bounded_of_radix? h
  · exact bounded_of_unsigned? h
  · exact bounded_of_unsigned? h
  · exact bounded_of_unsigned? h

theorem bounded_of_moment? (h : moment? cs = some (v, rest)) : v.Bounded := by
  unfold moment? at h
  dsimp only at h
  split at h
  all_goals
    obtain ⟨_, -, h⟩ := Option.bind_eq_some_iff.1 h
    cases h
    exact .moment _

end Lexer

/-! ## Tables under construction -/

namespace Draft

/-- Every whole number in a value under construction fits 64 bits with a sign. -/
inductive Bounded : Draft → Prop where
  | value {v : Toml} : v.Bounded → Bounded (.value v)
  | table {origin : Origin} {fields : Fields} : (∀ f ∈ fields, Bounded f.2) → Bounded (.table origin fields)
  | rows {tables : List Fields} : (∀ fields ∈ tables, ∀ f ∈ fields, Bounded f.2) → Bounded (.rows tables)

/-- The same of all fields of a table. -/
def AllBounded (fields : Fields) : Prop := ∀ f ∈ fields, f.2.Bounded

variable {d : Draft} {fields fields' : Fields} {key : String} {path : List String}

theorem AllBounded.nil : AllBounded [] := List.forall_mem_nil _

theorem AllBounded.snoc (h : AllBounded fields) (hd : d.Bounded) : AllBounded (fields ++ [(key, d)]) := by
  intro f hf
  rcases List.mem_append.1 hf with hf | hf
  · exact h f hf
  · rw [List.mem_singleton.1 hf]
    exact hd

theorem AllBounded.set (h : AllBounded fields) (hd : d.Bounded) : AllBounded (set key d fields) := by
  unfold Draft.set
  split
  · intro f hf
    obtain ⟨g, hg, rfl⟩ := List.mem_map.1 hf
    split
    · exact hd
    · exact h g hg
  · exact h.snoc hd

theorem AllBounded.lookup (h : AllBounded fields) (hlookup : fields.lookup key = some d) : d.Bounded := by
  obtain ⟨front, back, rfl, -⟩ := List.lookup_eq_some_iff.1 hlookup
  exact h (key, d) (by simp)

theorem AllBounded.of_table {origin : Origin} (h : (Draft.table origin fields).Bounded) : AllBounded fields := by
  cases h with
  | table h => exact h

theorem bounded_of_last {tables : List Fields} {last : Fields} (h : (Draft.rows tables).Bounded)
    (hlast : tables.getLast? = some last) :
    AllBounded last ∧
      ∀ last', AllBounded last' → (Draft.rows (tables.dropLast ++ [last'])).Bounded := by
  cases h with
  | rows h =>
    refine ⟨h last (List.mem_of_getLast? hlast), fun last' hlast' => .rows fun fields hfields => ?_⟩
    rcases List.mem_append.1 hfields with hfields | hfields
    · exact h fields (List.dropLast_subset _ hfields)
    · rw [List.mem_singleton.1 hfields]
      exact hlast'

/-- A change at the end of a path keeps the bounds if it keeps them where it is made. -/
theorem bounded_of_atPath {change : Fields → Option Fields}
    (hchange : ∀ fields fields', AllBounded fields → change fields = some fields' → AllBounded fields')
    (hfields : AllBounded fields) (h : atPath path change fields = some fields') : AllBounded fields' := by
  induction path generalizing fields fields' with
  | nil => exact hchange fields fields' hfields h
  | cons key path ih =>
    unfold atPath at h
    split at h
    · obtain ⟨sub, hsub, rfl⟩ := Option.map_eq_some_iff.1 h
      exact hfields.snoc (.table (ih AllBounded.nil hsub))
    · next origin sub hlookup =>
      obtain ⟨sub', hsub, rfl⟩ := Option.map_eq_some_iff.1 h
      exact hfields.set (.table (ih (.of_table (hfields.lookup hlookup)) hsub))
    · next tables hlookup =>
      split at h
      · next last hlast =>
        obtain ⟨last', hlast', rfl⟩ := Option.map_eq_some_iff.1 h
        obtain ⟨hold, hnew⟩ := bounded_of_last (hfields.lookup hlookup) hlast
        exact hfields.set (hnew last' (ih hold hlast'))
      · contradiction
    · contradiction

theorem bounded_of_assign (hd : d.Bounded) (hfields : AllBounded fields)
    (h : assign path key d fields = some fields') : AllBounded fields' := by
  induction path generalizing fields fields' with
  | nil =>
    unfold assign addNew at h
    split at h
    · contradiction
    · cases h
      exact hfields.snoc hd
  | cons step path ih =>
    unfold assign at h
    split at h
    · obtain ⟨sub, hsub, rfl⟩ := Option.map_eq_some_iff.1 h
      exact hfields.snoc (.table (ih AllBounded.nil hsub))
    · next origin sub hlookup =>
      split at h
      · contradiction
      · obtain ⟨sub', hsub, rfl⟩ := Option.map_eq_some_iff.1 h
        exact hfields.set (.table (ih (.of_table (hfields.lookup hlookup)) hsub))
    · next tables hlookup =>
      split at h
      · next last hlast =>
        split at h
        · contradiction
        · obtain ⟨last', hlast', rfl⟩ := Option.map_eq_some_iff.1 h
          obtain ⟨hold, hnew⟩ := bounded_of_last (hfields.lookup hlookup) hlast
          exact hfields.set (hnew last' (ih hold hlast'))
      · contradiction
    · contradiction

theorem bounded_of_openTable (hfields : AllBounded fields) (h : openTable path key fields = some fields') :
    AllBounded fields' := by
  refine bounded_of_atPath (fun fields fields' hfields h => ?_) hfields h
  split at h
  · cases h
    exact hfields.snoc (.table AllBounded.nil)
  · next sub hlookup =>
    cases h
    exact hfields.set (.table (AllBounded.of_table (hfields.lookup hlookup)))
  · contradiction

theorem bounded_of_openRow (hfields : AllBounded fields) (h : openRow path key fields = some fields') :
    AllBounded fields' := by
  refine bounded_of_atPath (fun fields fields' hfields h => ?_) hfields h
  split at h
  · cases h
    refine hfields.snoc (.rows fun fields hf => ?_)
    rw [List.mem_singleton.1 hf]
    exact AllBounded.nil
  · next tables hlookup =>
    cases h
    refine hfields.set (.rows fun fields hf => ?_)
    rcases List.mem_append.1 hf with hf | hf
    · cases hfields.lookup hlookup with
      | rows h => exact h fields hf
    · rw [List.mem_singleton.1 hf]
      exact AllBounded.nil
  · contradiction

theorem finishFields_eq_map (fields : Fields) : finishFields fields = fields.map fun f => (f.1, finish f.2) := by
  induction fields with
  | nil => rfl
  | cons f fields ih => rw [finishFields, ih, List.map_cons]

theorem finishRows_eq_map (tables : List Fields) :
    finishRows tables = tables.map fun fields => .table (finishFields fields) := by
  induction tables with
  | nil => rfl
  | cons fields tables ih => rw [finishRows, ih, List.map_cons]

theorem bounded_finish (h : d.Bounded) : d.finish.Bounded := by
  induction h with
  | value h => exact h
  | table _ ih =>
    rw [finish, finishFields_eq_map]
    refine .table fun f hf => ?_
    obtain ⟨g, hg, rfl⟩ := List.mem_map.1 hf
    exact ih g hg
  | rows _ ih =>
    rw [finish, finishRows_eq_map]
    refine .array fun v hv => ?_
    obtain ⟨fields, hfields, rfl⟩ := List.mem_map.1 hv
    rw [finishFields_eq_map]
    refine .table fun f hf => ?_
    obtain ⟨g, hg, rfl⟩ := List.mem_map.1 hf
    exact ih fields hfields g hg

theorem bounded_finishFields (h : AllBounded fields) : (Toml.table (finishFields fields)).Bounded := by
  have hfinish := bounded_finish (d := .table .header fields) (.table h)
  rwa [finish] at hfinish

end Draft

/-! ## Reading -/

namespace Reader

open Lexer
open Draft (AllBounded)

/-- What is read within `fuel` nested calls. -/
structure BoundedWithin (fuel : Nat) : Prop where
  ofValue {depth : Nat} {cs rest : List Char} {v : Toml} : value depth fuel cs = some (v, rest) → v.Bounded
  ofItems {depth : Nat} {done : List Toml} {cs rest : List Char} {v : Toml} : (∀ w ∈ done, w.Bounded) →
    items depth fuel done cs = some (v, rest) → v.Bounded
  ofPairs {depth : Nat} {done : Draft.Fields} {cs rest : List Char} {v : Toml} : AllBounded done →
    pairs depth fuel done cs = some (v, rest) → v.Bounded

variable {depth fuel : Nat}

/-- A value that is read with values that are read within fewer calls. -/
theorem BoundedWithin.value_succ (within : BoundedWithin fuel) (h : value depth (fuel + 1) cs = some (v, rest)) :
    v.Bounded := by
  rw [value.eq_def] at h
  dsimp only at h
  split at h
  · cases h; exact .boolean _
  · cases h; exact .boolean _
  · obtain ⟨x, -, h⟩ := Option.map_eq_some_iff.1 h
    cases h
    exact .text _
  · obtain ⟨x, -, h⟩ := Option.map_eq_some_iff.1 h
    cases h
    exact .text _
  · split at h
    · exact within.ofItems (List.forall_mem_nil _) h
    · contradiction
  · split at h
    · split at h
      · cases h
        exact .table (List.forall_mem_nil _)
      · exact within.ofPairs AllBounded.nil h
    · contradiction
  · split at h
    · exact bounded_of_moment? h
    · exact bounded_of_number? h

/-- The items of an array, after those of `done`. -/
theorem BoundedWithin.items_succ {done : List Toml} (within : BoundedWithin fuel) (hdone : ∀ w ∈ done, w.Bounded)
    (h : items depth (fuel + 1) done cs = some (v, rest)) : v.Bounded := by
  rw [items] at h
  split at h
  · cases h
    exact .array fun w hw => hdone w (List.mem_reverse.1 hw)
  · obtain ⟨⟨w, rest₁⟩, hw, h⟩ := Option.bind_eq_some_iff.1 h
    have hnow : ∀ u ∈ w :: done, u.Bounded := List.forall_mem_cons.2 ⟨within.ofValue hw, hdone⟩
    dsimp only at h
    split at h
    · exact within.ofItems hnow h
    · cases h
      exact .array fun u hu => hnow u (List.mem_reverse.1 hu)
    · contradiction

/-- The fields of an inline table, after those of `done`. -/
theorem BoundedWithin.pairs_succ {done : Draft.Fields} (within : BoundedWithin fuel) (hdone : AllBounded done)
    (h : pairs depth (fuel + 1) done cs = some (v, rest)) : v.Bounded := by
  rw [pairs] at h
  obtain ⟨⟨path, key, rest₁⟩, -, h⟩ := Option.bind_eq_some_iff.1 h
  dsimp only at h
  split at h
  · obtain ⟨⟨w, rest₂⟩, hw, h⟩ := Option.bind_eq_some_iff.1 h
    obtain ⟨done', hassign, h⟩ := Option.bind_eq_some_iff.1 h
    have hnow := Draft.bounded_of_assign (.value (within.ofValue hw)) hdone hassign
    dsimp only at h
    split at h
    · exact within.ofPairs hnow h
    · cases h
      exact Draft.bounded_finishFields hnow
    · contradiction
  · contradiction

/-- Values, arrays and inline tables call each other, so that the bounds come for all three at once. -/
theorem boundedWithin (fuel : Nat) : BoundedWithin fuel := by
  induction fuel with
  | zero =>
    refine ⟨fun h => ?_, fun _ h => ?_, fun _ h => ?_⟩
    · rw [value] at h; cases h
    · rw [items] at h; cases h
    · rw [pairs] at h; cases h
  | succ fuel within => exact ⟨within.value_succ, within.items_succ, within.pairs_succ⟩

theorem bounded_of_line {path : List String} {key : String} (h : line cs = some (.assign path key v, rest)) :
    v.Bounded := by
  unfold line at h
  split at h
  · cases h
  · cases h
  · cases h
  · cases h
  · obtain ⟨x, -, h⟩ := Option.bind_eq_some_iff.1 h
    split at h <;> cases h
  · obtain ⟨x, -, h⟩ := Option.bind_eq_some_iff.1 h
    split at h <;> cases h
  · obtain ⟨x, -, h⟩ := Option.bind_eq_some_iff.1 h
    split at h
    · obtain ⟨w, hw, h⟩ := Option.bind_eq_some_iff.1 h
      cases h
      exact (boundedWithin _).ofValue hw
    · cases h

theorem bounded_of_lines {fuel : Nat} {header : List String} {root root' : Draft.Fields} (hroot : AllBounded root)
    (h : lines fuel header root cs = some root') : AllBounded root' := by
  induction fuel generalizing header root cs with
  | zero =>
    cases cs with
    | nil => cases h; exact hroot
    | cons => cases h
  | succ fuel ih =>
    cases cs with
    | nil => cases h; exact hroot
    | cons c cs =>
      rw [lines] at h
      · obtain ⟨⟨l, rest₁⟩, hline, h⟩ := Option.bind_eq_some_iff.1 h
        obtain ⟨rest₂, -, h⟩ := Option.bind_eq_some_iff.1 h
        split at h
        · exact ih hroot h
        · next path key v =>
          obtain ⟨root₁, hroot₁, h⟩ := Option.bind_eq_some_iff.1 h
          refine ih (Draft.bounded_of_atPath (fun fields fields' hfields hassign => ?_) hroot hroot₁) h
          exact Draft.bounded_of_assign (.value (bounded_of_line hline)) hfields hassign
        · obtain ⟨root₁, hroot₁, h⟩ := Option.bind_eq_some_iff.1 h
          exact ih (Draft.bounded_of_openTable hroot hroot₁) h
        · obtain ⟨root₁, hroot₁, h⟩ := Option.bind_eq_some_iff.1 h
          exact ih (Draft.bounded_of_openRow hroot hroot₁) h
      · exact List.cons_ne_nil c cs

end Reader

/-- Every whole number in a document fits 64 bits with a sign. -/
theorem bounded_of_parse? {s : String} (h : parse? s = some v) : v.Bounded := by
  obtain ⟨root, hroot, rfl⟩ := Option.map_eq_some_iff.1 h
  exact Draft.bounded_finishFields (Reader.bounded_of_lines Draft.AllBounded.nil hroot)

end RemoteFacts.Toml
