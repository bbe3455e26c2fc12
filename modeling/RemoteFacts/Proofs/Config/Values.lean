import RemoteFacts.Proofs.Config.Spellings

/-!
# A configuration by its values

* `Config.Key.Value`, `Config.get`, `Config.put` : a configuration is a value for each key (`Config.eq_of_get`), and one
  can be put in place of another (`get_put_self`, `get_put_of_ne`);
* `Config.Key.Spells` : which texts stand for which values of a key; these are read so (`Config.valueOf_eq_ok_iff`), and
  changing a value is reading a text and putting what it stands for in place of the value (`Config.set_eq`);
* `Config.Key.Admits`, `Config.Key.Fits` : the values that may be loaded, and those that can be written;
* `Config.Sets`, `Config.Refuses` : what a change asks for, or why it is refused (`request_eq_ok_iff`,
  `request_eq_error_iff`, `refuses_or_sets`);
* `Config.Edits` : what has become of a configuration after any number of changes (`edits_iff`).
-/

namespace RemoteFacts.Config

/-! ## Values -/

/-- What the value of a key is. -/
abbrev Key.Value : Key → Type
  | .logFormat | .metadataDir => String
  | .ttlSeconds | .maxEntries | .ancestorMaxDepth | .timeoutSecs => Nat
  | .debugLogging | .autoRegister | .recursive | .enabled => Bool
  | .ancestorMarkers => List String

/-- The value of a key. -/
def get (c : Config) : (k : Key) → k.Value
  | .logFormat => c.general.logFormat
  | .ttlSeconds => c.cache.ttlSeconds
  | .maxEntries => c.cache.maxEntries
  | .debugLogging => c.watch.debugLogging
  | .autoRegister => c.watch.autoRegister
  | .recursive => c.watch.recursive
  | .enabled => c.prefetch.enabled
  | .metadataDir => c.prefetch.metadataDir
  | .ancestorMarkers => c.prefetch.ancestorMarkers
  | .ancestorMaxDepth => c.prefetch.ancestorMaxDepth
  | .timeoutSecs => c.rpc.timeoutSecs

/-- A configuration with another value for one key. -/
def put (c : Config) : (k : Key) → k.Value → Config
  | .logFormat, v => { c with general.logFormat := v }
  | .ttlSeconds, v => { c with cache.ttlSeconds := v }
  | .maxEntries, v => { c with cache.maxEntries := v }
  | .debugLogging, v => { c with watch.debugLogging := v }
  | .autoRegister, v => { c with watch.autoRegister := v }
  | .recursive, v => { c with watch.recursive := v }
  | .enabled, v => { c with prefetch.enabled := v }
  | .metadataDir, v => { c with prefetch.metadataDir := v }
  | .ancestorMarkers, v => { c with prefetch.ancestorMarkers := v }
  | .ancestorMaxDepth, v => { c with prefetch.ancestorMaxDepth := v }
  | .timeoutSecs, v => { c with rpc.timeoutSecs := v }

variable {c d : Config} {k : Key} {v : k.Value}

@[simp] theorem get_put_self (c : Config) (k : Key) (v : k.Value) : (c.put k v).get k = v := by
  cases k <;> rfl

theorem get_put_of_ne {j : Key} (h : j ≠ k) : (c.put k v).get j = c.get j := by
  cases k <;> cases j <;> first | rfl | contradiction

/-- Nothing else is in a configuration. -/
theorem eq_of_get (h : ∀ k, c.get k = d.get k) : c = d := by
  obtain ⟨⟨_⟩, ⟨_, _⟩, ⟨_, _, _⟩, ⟨_, _, _, _⟩, ⟨_⟩⟩ := c
  obtain ⟨⟨_⟩, ⟨_, _⟩, ⟨_, _, _⟩, ⟨_, _, _, _⟩, ⟨_⟩⟩ := d
  cases h .logFormat
  cases h .ttlSeconds
  cases h .maxEntries
  cases h .debugLogging
  cases h .autoRegister
  cases h .recursive
  cases h .enabled
  cases h .metadataDir
  cases h .ancestorMarkers
  cases h .ancestorMaxDepth
  cases h .timeoutSecs
  rfl

/-! ## Values as users write them -/

/-- A text stands for a value of a key. -/
def Key.Spells : (k : Key) → String → k.Value → Prop
  | .logFormat, s, v => v = s ∧ (s = "text" ∨ s = "json")
  | .ttlSeconds, s, n => SpellsNat 18446744073709551615 s n
  | .maxEntries, s, n => SpellsNat 18446744073709551615 s n
  | .debugLogging, s, b => SpellsBool s b
  | .autoRegister, s, b => SpellsBool s b
  | .recursive, s, b => SpellsBool s b
  | .enabled, s, b => SpellsBool s b
  | .metadataDir, s, v => v = s ∧ s ≠ ""
  | .ancestorMarkers, s, names => SpellsNames s names
  | .ancestorMaxDepth, s, n => SpellsNat 4294967295 s n
  | .timeoutSecs, s, n => SpellsNat 18446744073709551615 s n

/-- What the user is told of a text that stands for no value of a key. Each text stands for some list of markers. -/
def Key.complaint : Key → String → String
  | .logFormat, s => s!"Invalid log format: {s}. Use text or json"
  | .ttlSeconds, s | .maxEntries, s | .ancestorMaxDepth, s | .timeoutSecs, s => s!"Invalid number: {s}"
  | .debugLogging, s | .autoRegister, s | .recursive, s | .enabled, s =>
    s!"Invalid boolean value: {s}. Use true/false"
  | .metadataDir, _ => "prefetch.metadata_dir must not be empty"
  | .ancestorMarkers, _ => ""

/-- The value that is read from a text for a key. -/
def Key.valueOf : (k : Key) → String → Except Error k.Value
  | .logFormat, s => logFormatOf s
  | .ttlSeconds, s => numberOf Width.maxNat64 s
  | .maxEntries, s => numberOf Width.maxNat64 s
  | .debugLogging, s => boolOf s
  | .autoRegister, s => boolOf s
  | .recursive, s => boolOf s
  | .enabled, s => boolOf s
  | .metadataDir, s => metadataDirOf s
  | .ancestorMarkers, s => .ok (markersOf s)
  | .ancestorMaxDepth, s => numberOf Width.maxNat32 s
  | .timeoutSecs, s => numberOf Width.maxNat64 s

/-- Changing a value is reading a text, and then putting what has been read in place of the value. -/
theorem set_eq (c : Config) (k : Key) (s : String) : c.set k s = (k.valueOf s).map (c.put k) := by
  cases k <;> rfl

section Reading

variable {s : String} {e : Error}

/-- A text is read as the value that it stands for. -/
theorem valueOf_eq_ok_iff : k.valueOf s = .ok v ↔ k.Spells s v := by
  cases k with
  | logFormat => exact logFormatOf_eq_ok_iff
  | metadataDir => exact metadataDirOf_eq_ok_iff
  | ancestorMarkers => exact (Iff.of_eq (Except.ok.injEq _ _)).trans markersOf_eq_iff
  | ttlSeconds | maxEntries | ancestorMaxDepth | timeoutSecs => exact numberOf_eq_ok_iff
  | debugLogging | autoRegister | recursive | enabled => exact boolOf_eq_ok_iff

theorem eq_complaint_of_valueOf (h : k.valueOf s = .error e) : e = .user (k.complaint s) := by
  cases k with
  | logFormat => exact error_of_logFormatOf h
  | metadataDir => exact error_of_metadataDirOf h
  | ancestorMarkers => contradiction
  | ttlSeconds | maxEntries | ancestorMaxDepth | timeoutSecs => exact error_of_numberOf h
  | debugLogging | autoRegister | recursive | enabled => exact error_of_boolOf h

end Reading

/-! ## Values that may be loaded and can be written -/

/-- The values that a configuration may be loaded with; a number is one that a reader of its width has read. -/
def Key.Admits : (k : Key) → k.Value → Prop
  | .logFormat, s => s = "text" ∨ s = "json"
  | .metadataDir, s => s ≠ ""
  | .ancestorMaxDepth, n => n ≤ Width.maxNat32
  | _, _ => True

/-- The values that can be written: a whole number has to fit 64 bits with a sign. -/
def Key.Fits : (k : Key) → k.Value → Prop
  | .ttlSeconds, n => (n : Int) ≤ Width.maxInt64
  | .maxEntries, n => (n : Int) ≤ Width.maxInt64
  | .ancestorMaxDepth, n => (n : Int) ≤ Width.maxInt64
  | .timeoutSecs, n => (n : Int) ≤ Width.maxInt64
  | _, _ => True

instance Key.decidableFits : (k : Key) → DecidablePred k.Fits
  | .ttlSeconds => fun n => inferInstanceAs (Decidable ((n : Int) ≤ Width.maxInt64))
  | .maxEntries => fun n => inferInstanceAs (Decidable ((n : Int) ≤ Width.maxInt64))
  | .ancestorMaxDepth => fun n => inferInstanceAs (Decidable ((n : Int) ≤ Width.maxInt64))
  | .timeoutSecs => fun n => inferInstanceAs (Decidable ((n : Int) ≤ Width.maxInt64))
  | .logFormat | .debugLogging | .autoRegister | .recursive | .enabled | .metadataDir | .ancestorMarkers =>
    fun _ => inferInstanceAs (Decidable True)

/-- What a text stands for may be loaded. -/
theorem Key.Spells.admits {s : String} (h : k.Spells s v) : k.Admits v := by
  cases k with
  | logFormat =>
    obtain ⟨rfl, hformat⟩ : v = s ∧ (s = "text" ∨ s = "json") := h
    exact hformat
  | metadataDir =>
    obtain ⟨rfl, hne⟩ : v = s ∧ s ≠ "" := h
    exact hne
  | ancestorMaxDepth => exact SpellsNat.le h
  | ttlSeconds | maxEntries | debugLogging | autoRegister | recursive | enabled | ancestorMarkers | timeoutSecs =>
    trivial

/-- Every value of the configuration may be loaded and can be written. -/
def Kept (c : Config) : Prop := ∀ k : Key, k.Admits (c.get k) ∧ k.Fits (c.get k)

theorem Kept.put (h : c.Kept) (hadmits : k.Admits v) (hfits : k.Fits v) : (c.put k v).Kept := by
  intro j
  by_cases hj : j = k
  · subst hj
    rw [get_put_self]
    exact ⟨hadmits, hfits⟩
  · rw [get_put_of_ne hj]
    exact h j

/-! ## Changes -/

/-- Whoever sets `name` to `text` asks for `v` as the value of `k`, and it can be written. -/
structure Sets (name text : String) (k : Key) (v : k.Value) : Prop where
  named : k.name = name
  spelled : k.Spells text v
  fits : k.Fits v

/-- Whoever sets `name` to `text` is refused. -/
inductive Refuses (name text : String) : Error → Prop where
  | unknown (h : ∀ k : Key, k.name ≠ name) : Refuses name text (.user s!"Unknown config key: {name}")
  | unreadable {k : Key} (hname : k.name = name) (h : ∀ v, ¬ k.Spells text v) :
      Refuses name text (.user (k.complaint text))
  | unwritable {k : Key} {v : k.Value} (hname : k.name = name) (h : k.Spells text v) (hfits : ¬ k.Fits v) :
      Refuses name text (.unprintableToml "out-of-range value for u64 type")

/-- What has become of a configuration after some changes: one that is refused leaves it as it was, any other one gives
one key another value. -/
inductive Edits : Config → List (String × String) → Config → Prop where
  | done (c : Config) : Edits c [] c
  | refused {c d : Config} {name text : String} {changes : List (String × String)} {e : Error}
      (h : Refuses name text e) (hrest : Edits c changes d) : Edits c ((name, text) :: changes) d
  | set {c c' d : Config} {name text : String} {changes : List (String × String)} {k : Key} {v : k.Value}
      (h : Sets name text k v) (hvalue : c'.get k = v) (hothers : ∀ j, j ≠ k → c'.get j = c.get j)
      (hrest : Edits c' changes d) : Edits c ((name, text) :: changes) d

/-- What comes of a change, a key and its new value or an error. -/
def request (name text : String) : Except Error (Σ k : Key, k.Value) :=
  match Key.parse? name with
  | none => .error (.user s!"Unknown config key: {name}")
  | some k =>
    match k.valueOf text with
    | .error e => .error e
    | .ok v => if k.Fits v then .ok ⟨k, v⟩ else .error (.unprintableToml "out-of-range value for u64 type")

/-- A configuration after a change; it stays as it is if the change is refused. -/
def edit (c : Config) (e : String × String) : Config :=
  match request e.1 e.2 with
  | .ok ⟨k, v⟩ => c.put k v
  | .error _ => c

section Requests

variable {name text : String} {e : Error} {changes : List (String × String)}

theorem Key.parse?_eq_some_iff : Key.parse? name = some k ↔ k.name = name := by
  constructor
  · intro h
    have hfound : Key.all.find? (fun k => k.name == name) = some k := h
    simpa using List.find?_some hfound
  · rintro rfl
    cases k <;> decide +kernel

theorem Key.parse?_eq_none_iff : Key.parse? name = none ↔ ∀ k : Key, k.name ≠ name := by
  rw [Option.eq_none_iff_forall_ne_some]
  exact forall_congr' fun k => not_congr Key.parse?_eq_some_iff

theorem request_eq_ok_iff : request name text = .ok ⟨k, v⟩ ↔ Sets name text k v := by
  unfold request
  constructor
  · intro h
    split at h
    · contradiction
    next j hname =>
    split at h
    · contradiction
    next w hvalue =>
    split at h
    · next hfits =>
      cases h
      exact ⟨Key.parse?_eq_some_iff.1 hname, valueOf_eq_ok_iff.1 hvalue, hfits⟩
    · contradiction
  · intro h
    rw [Key.parse?_eq_some_iff.2 h.named]
    dsimp only
    rw [valueOf_eq_ok_iff.2 h.spelled]
    exact if_pos h.fits

theorem request_eq_error_iff : request name text = .error e ↔ Refuses name text e := by
  unfold request
  constructor
  · intro h
    split at h
    · next hname =>
      cases h
      exact .unknown (Key.parse?_eq_none_iff.1 hname)
    next j hname =>
    split at h
    · next e' hvalue =>
      cases h
      rw [eq_complaint_of_valueOf hvalue]
      refine .unreadable (Key.parse?_eq_some_iff.1 hname) fun v hspelled => ?_
      rw [valueOf_eq_ok_iff.2 hspelled] at hvalue
      contradiction
    next w hvalue =>
    split at h
    · contradiction
    · next hfits =>
      cases h
      exact .unwritable (Key.parse?_eq_some_iff.1 hname) (valueOf_eq_ok_iff.1 hvalue) hfits
  · intro h
    cases h with
    | unknown h => rw [Key.parse?_eq_none_iff.2 h]
    | @unreadable k hname h =>
      rw [Key.parse?_eq_some_iff.2 hname]
      dsimp only
      cases hvalue : k.valueOf text with
      | ok v => exact absurd (valueOf_eq_ok_iff.1 hvalue) (h v)
      | error e => rw [eq_complaint_of_valueOf hvalue]
    | @unwritable k v hname h hfits =>
      rw [Key.parse?_eq_some_iff.2 hname]
      dsimp only
      rw [valueOf_eq_ok_iff.2 h]
      exact if_neg hfits

/-- Each change is refused or gives some key a value. -/
theorem refuses_or_sets (name text : String) : (∃ e, Refuses name text e) ∨ ∃ k v, Sets name text k v := by
  cases h : request name text with
  | error e => exact Or.inl ⟨e, request_eq_error_iff.1 h⟩
  | ok change => exact Or.inr ⟨change.1, change.2, request_eq_ok_iff.1 h⟩

theorem edit_of_refuses (h : Refuses name text e) : c.edit (name, text) = c := by
  rw [edit, request_eq_error_iff.2 h]

theorem edit_of_sets (h : Sets name text k v) : c.edit (name, text) = c.put k v := by
  rw [edit, request_eq_ok_iff.2 h]

/-- There is one configuration that some changes lead to. -/
theorem edits_iff : Edits c changes d ↔ changes.foldl edit c = d := by
  constructor
  · intro h
    induction h with
    | done c => rfl
    | refused h _ ih => rw [List.foldl_cons, edit_of_refuses h, ih]
    | @set c c' d name text changes k v h hvalue hothers _ ih =>
      have hput : c.put k v = c' := by
        refine eq_of_get fun j => ?_
        by_cases hj : j = k
        · subst hj
          rw [get_put_self, hvalue]
        · rw [get_put_of_ne hj, hothers j hj]
      rw [List.foldl_cons, edit_of_sets h, hput, ih]
  · rintro rfl
    induction changes generalizing c with
    | nil => exact .done c
    | cons change changes ih =>
      obtain ⟨name, text⟩ := change
      rw [List.foldl_cons]
      rcases refuses_or_sets name text with ⟨e, h⟩ | ⟨k, v, h⟩
      · rw [edit_of_refuses h]
        exact .refused h ih
      · rw [edit_of_sets h]
        exact .set h (get_put_self c k v) (fun j hj => get_put_of_ne hj) ih

end Requests

end RemoteFacts.Config
