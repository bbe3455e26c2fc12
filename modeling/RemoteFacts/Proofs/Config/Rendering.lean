import RemoteFacts.Proofs.Config.Values
import RemoteFacts.Proofs.Text.Utf8
import RemoteFacts.Proofs.Toml.Bounds
import RemoteFacts.Proofs.Toml.Documents

/-!
# A configuration comes back from its document

* `Config.isSome_document?_sections_iff` : a configuration can be written just when each of its values can;
* `Config.read?_sections` : what is read from its sections is the configuration;
* `Config.kept_of_ofText`, `Config.exists_render_of_kept` : a configuration that has been loaded can be written, and
  is loaded from what is written for it.
-/

namespace RemoteFacts

open Toml

namespace Config

variable {c : Config} {k : Key}

/-! ## What can be written -/

/-- A configuration can be written just when each of its values can. -/
theorem isSome_document?_sections_iff (c : Config) :
    (Printer.document? c.sections).isSome = true ↔ ∀ k : Key, k.Fits (c.get k) := by
  have htext (s : String) : (Printer.value? (.text s)).isSome = true := rfl
  have hboolean (b : Bool) : (Printer.value? (.boolean b)).isSome = true := rfl
  rw [Printer.isSome_document?_iff]
  simp only [sections, number, List.forall_mem_cons, List.not_mem_nil, htext, hboolean, Printer.isSome_texts,
    Printer.isSome_integer_iff, false_imp_iff, implies_true, and_true, true_and, and_assoc]
  constructor
  · rintro ⟨httl, hmax, hdepth, htimeout⟩ k
    cases k with
    | ttlSeconds => exact httl
    | maxEntries => exact hmax
    | ancestorMaxDepth => exact hdepth
    | timeoutSecs => exact htimeout
    | logFormat | debugLogging | autoRegister | recursive | enabled | metadataDir | ancestorMarkers => trivial
  · exact fun h => ⟨h .ttlSeconds, h .maxEntries, h .ancestorMaxDepth, h .timeoutSecs⟩

theorem render_of_not_fits (h : ¬ k.Fits (c.get k)) :
    c.render = .error (.unprintableToml "out-of-range value for u64 type") := by
  unfold render
  split
  · next text htext =>
    have hsome := (isSome_document?_sections_iff c).1 (Option.isSome_of_eq_some htext)
    exact absurd (hsome k) h
  · rfl

/-! ## What is read back -/

/-- The names of the fields of each section differ, and none needs quotes. -/
theorem wellNamed_sections (c : Config) : ∀ s ∈ c.sections, WellNamed s.1 s.2 := by
  have hnames : ∀ s ∈ [("general", ["log_format"]), ("cache", ["ttl_seconds", "max_entries"]),
      ("watch", ["debug_logging", "auto_register", "recursive"]),
      ("prefetch", ["enabled", "metadata_dir", "ancestor_markers", "ancestor_max_depth"]),
      ("rpc", ["timeout_secs"])], isBareKey s.1 = true ∧ s.2.Nodup ∧ ∀ key ∈ s.2, isBareKey key = true := by
    decide +kernel
  intro s hs
  obtain ⟨hname, hnodup, hkeys⟩ := hnames (s.1, s.2.map (·.1))
    (List.mem_map_of_mem (f := fun s => (s.1, s.2.map (·.1))) hs)
  exact ⟨hname, fun f hf => hkeys f.1 (List.mem_map_of_mem hf), hnodup⟩

theorem natUpTo?_number {high n : Nat} (h : n ≤ high) : Source.natUpTo? high (number n) = some n :=
  if_pos ⟨Int.natCast_nonneg n, Int.ofNat_le.2 h⟩

theorem texts?_texts (ss : List String) : Source.texts? (Toml.array (ss.map Toml.text)) = some ss := by
  show (ss.map Toml.text).mapM Source.tomlText? = some ss
  rw [List.mapM_map]
  exact (List.mapM_pure (f := id)).trans (congrArg some (List.map_id ss))

theorem General.read?_section (s : Config.General) :
    General.read? (Toml.table [("log_format", .text s.logFormat)]) = some s := rfl

theorem Cache.read?_section {s : Config.Cache} (httl : s.ttlSeconds ≤ Width.maxNat64)
    (hmax : s.maxEntries ≤ Width.maxNat64) :
    Cache.read? (Toml.table [("ttl_seconds", number s.ttlSeconds), ("max_entries", number s.maxEntries)]) =
      some s := by
  have hrecord : Source.record? [["ttl_seconds", "ttlSeconds"], ["max_entries", "maxEntries"]]
      (Toml.table [("ttl_seconds", number s.ttlSeconds), ("max_entries", number s.maxEntries)]) =
        some [some (number s.ttlSeconds), some (number s.maxEntries)] := rfl
  rw [Cache.read?, hrecord]
  simp only [Option.bind_eq_bind, Option.bind_some, orDefault, natUpTo?_number httl, natUpTo?_number hmax]
  rfl

theorem Watch.read?_section (s : Config.Watch) :
    Watch.read? (Toml.table [("debug_logging", .boolean s.debugLogging), ("auto_register", .boolean s.autoRegister),
      ("recursive", .boolean s.recursive)]) = some s := rfl

theorem Prefetch.read?_section {s : Config.Prefetch} (hdepth : s.ancestorMaxDepth ≤ Width.maxNat32) :
    Prefetch.read? (Toml.table [("enabled", .boolean s.enabled), ("metadata_dir", .text s.metadataDir),
      ("ancestor_markers", .array (s.ancestorMarkers.map Toml.text)),
      ("ancestor_max_depth", number s.ancestorMaxDepth)]) = some s := by
  have hrecord : Source.record? [["enabled"], ["metadata_dir"], ["ancestor_markers"], ["ancestor_max_depth"]]
      (Toml.table [("enabled", .boolean s.enabled), ("metadata_dir", .text s.metadataDir),
        ("ancestor_markers", .array (s.ancestorMarkers.map Toml.text)),
        ("ancestor_max_depth", number s.ancestorMaxDepth)]) =
      some [some (.boolean s.enabled), some (.text s.metadataDir), some (.array (s.ancestorMarkers.map Toml.text)),
        some (number s.ancestorMaxDepth)] := rfl
  rw [Prefetch.read?, hrecord]
  simp only [Option.bind_eq_bind, Option.bind_some, orDefault, natUpTo?_number hdepth, texts?_texts]
  rfl

theorem Rpc.read?_section {s : Config.Rpc} (htimeout : s.timeoutSecs ≤ Width.maxNat64) :
    Rpc.read? (Toml.table [("timeout_secs", number s.timeoutSecs)]) = some s := by
  have hrecord : Source.record? [["timeout_secs"]] (Toml.table [("timeout_secs", number s.timeoutSecs)]) =
      some [some (number s.timeoutSecs)] := rfl
  rw [Rpc.read?, hrecord]
  simp only [Option.bind_eq_bind, Option.bind_some, orDefault, natUpTo?_number htimeout]
  rfl

/-- What is read from the sections of a configuration is the configuration. -/
theorem read?_sections (h : c.Kept) : read? (Toml.table (c.sections.map fun s => (s.1, .table s.2))) = some c := by
  have hwide {n : Nat} (hn : (n : Int) ≤ Width.maxInt64) : n ≤ Width.maxNat64 :=
    Nat.le_trans (Int.ofNat_le.1 (show (n : Int) ≤ (0x7FFFFFFFFFFFFFFF : Nat) from hn)) (by decide)
  have hrecord : Source.record? [["general"], ["cache"], ["watch"], ["prefetch"], ["rpc"]]
      (Toml.table (c.sections.map fun s => (s.1, .table s.2))) =
        some (c.sections.map fun s => some (Toml.table s.2)) := rfl
  rw [read?, hrecord]
  simp only [sections, List.map_cons, List.map_nil, Option.bind_eq_bind, Option.bind_some, orDefault,
    General.read?_section, Cache.read?_section (hwide (h .ttlSeconds).2) (hwide (h .maxEntries).2), Watch.read?_section,
    Prefetch.read?_section (h .ancestorMaxDepth).1, Rpc.read?_section (hwide (h .timeoutSecs).2)]
  rfl

/-! ## Loading -/

/-- Nothing is wrong with a configuration just when it has the values that may be loaded. -/
theorem fault?_eq_none_iff :
    c.fault? = none ↔ Key.logFormat.Admits c.general.logFormat ∧ Key.metadataDir.Admits c.prefetch.metadataDir := by
  unfold fault?
  split
  · next h => exact iff_of_false (by simp) fun hadmits => hadmits.1.elim h.1 h.2
  · next h =>
    have hformat : Key.logFormat.Admits c.general.logFormat := by
      by_cases htext : c.general.logFormat = "text"
      · exact Or.inl htext
      · exact Or.inr (Decidable.of_not_not fun hjson => h ⟨htext, hjson⟩)
    split
    · next hempty => exact iff_of_false (by simp) fun hadmits => hadmits.2 (String.isEmpty_iff.1 hempty)
    · next hempty => exact iff_of_true rfl ⟨hformat, fun heq => hempty (String.isEmpty_iff.2 heq)⟩

theorem exists_render_of_kept (h : c.Kept) : ∃ text, c.render = .ok text ∧ ∀ path, ofText path text = .ok c := by
  obtain ⟨text, htext⟩ := Option.isSome_iff_exists.1 ((isSome_document?_sections_iff c).2 fun k => (h k).2)
  have hparse : parse? text = some (.table (c.sections.map fun s => (s.1, .table s.2))) :=
    parse?_document? htext (show ["general", "cache", "watch", "prefetch", "rpc"].Nodup by decide)
      (wellNamed_sections c)
  have hfault : c.fault? = none := fault?_eq_none_iff.2 ⟨(h .logFormat).1, (h .metadataDir).1⟩
  refine ⟨text, by rw [render, htext], fun path => ?_⟩
  rw [ofText, hparse, Option.bind_some, read?_sections h]
  simp only [hfault]

/-! ## Numbers that have been loaded -/

section
variable {v : Toml} {ws : List (Option Toml)} {w : Option Toml} {names : List (List String)} {high n default : Nat}

theorem bounded_of_fieldNamed? {fields : List (String × Toml)} {names : List String}
    (h : fieldNamed? fields names = some w) (hfields : ∀ f ∈ fields, f.2.Bounded) : ∀ x ∈ w, x.Bounded := by
  unfold fieldNamed? at h
  split at h
  · cases h
    intro x hx
    cases hx
  · next y hy =>
    cases h
    intro x hx
    obtain rfl : y = x := Option.some.inj hx
    obtain ⟨name, -, hname⟩ := List.mem_filterMap.1 (hy ▸ List.mem_singleton_self y)
    obtain ⟨front, back, rfl, -⟩ := List.lookup_eq_some_iff.1 hname
    exact hfields (name, y) (by simp)
  · contradiction

/-- The fields of a record whose numbers are in bounds have numbers in bounds. -/
theorem bounded_of_record? (h : Source.record? names v = some ws) (hv : v.Bounded) :
    ∀ w ∈ ws, ∀ x ∈ w, x.Bounded := by
  cases hv with
  | table hfields =>
    have hall := forall₂_of_mapM h
    clear h
    induction hall with
    | nil => exact List.forall_mem_nil _
    | cons hw _ ih => exact List.forall_mem_cons.2 ⟨bounded_of_fieldNamed? hw hfields, ih⟩
  | array hitems =>
    cases h
    intro w hw x hx
    obtain ⟨i, -, rfl⟩ := List.mem_map.1 hw
    exact hitems x (List.mem_of_getElem? hx)
  | moment =>
    cases h
    intro w hw x hx
    obtain ⟨_, -, rfl⟩ := List.mem_map.1 hw
    cases hx
  | text | integer | real | boolean => cases h

theorem fits_of_orDefault (h : orDefault default (Source.natUpTo? high) w = some n) (hw : ∀ x ∈ w, x.Bounded)
    (hdefault : (default : Int) ≤ Width.maxInt64 ∧ default ≤ high) : (n : Int) ≤ Width.maxInt64 ∧ n ≤ high := by
  cases w with
  | none => cases h; exact hdefault
  | some x =>
    cases hw x rfl with
    | @integer m _ hm =>
      replace h : (if 0 ≤ m ∧ m ≤ high then some m.toNat else none) = some n := h
      split at h
      · next hle =>
        cases h
        rw [Int.toNat_of_nonneg hle.1]
        exact ⟨hm, Int.toNat_le.2 hle.2⟩
      · contradiction
    | text | real | boolean | moment | array | table => cases h

theorem Cache.fits_of_read? {s : Config.Cache} (h : Cache.read? v = some s) (hv : v.Bounded) :
    (s.ttlSeconds : Int) ≤ Width.maxInt64 ∧ (s.maxEntries : Int) ≤ Width.maxInt64 := by
  obtain ⟨ws, hws, h⟩ := Option.bind_eq_some_iff.1 h
  have hbounded := bounded_of_record? hws hv
  split at h
  · next ttl max =>
    obtain ⟨ttlSeconds, httl, h⟩ := Option.bind_eq_some_iff.1 h
    obtain ⟨maxEntries, hmax, h⟩ := Option.bind_eq_some_iff.1 h
    cases h
    exact ⟨(fits_of_orDefault httl (hbounded ttl (by simp)) (by decide)).1,
      (fits_of_orDefault hmax (hbounded max (by simp)) (by decide)).1⟩
  · contradiction

theorem Prefetch.fits_of_read? {s : Config.Prefetch} (h : Prefetch.read? v = some s) (hv : v.Bounded) :
    s.ancestorMaxDepth ≤ Width.maxNat32 := by
  obtain ⟨ws, hws, h⟩ := Option.bind_eq_some_iff.1 h
  have hbounded := bounded_of_record? hws hv
  split at h
  · next on dir markers depth =>
    obtain ⟨_, -, h⟩ := Option.bind_eq_some_iff.1 h
    obtain ⟨_, -, h⟩ := Option.bind_eq_some_iff.1 h
    obtain ⟨_, -, h⟩ := Option.bind_eq_some_iff.1 h
    obtain ⟨n, hn, h⟩ := Option.bind_eq_some_iff.1 h
    cases h
    exact (fits_of_orDefault hn (hbounded depth (by simp)) (by decide)).2
  · contradiction

theorem Rpc.fits_of_read? {s : Config.Rpc} (h : Rpc.read? v = some s) (hv : v.Bounded) :
    (s.timeoutSecs : Int) ≤ Width.maxInt64 := by
  obtain ⟨ws, hws, h⟩ := Option.bind_eq_some_iff.1 h
  have hbounded := bounded_of_record? hws hv
  split at h
  · next timeout =>
    obtain ⟨n, hn, h⟩ := Option.bind_eq_some_iff.1 h
    cases h
    exact (fits_of_orDefault hn (hbounded timeout (by simp)) (by decide)).1
  · contradiction

/-- What has been read from a section, or its default. -/
theorem of_orDefault {β : Type} {p : β → Prop} {read? : Toml → Option β} {default b : β}
    (h : orDefault default read? w = some b) (hw : ∀ x ∈ w, x.Bounded)
    (hread : ∀ x b, read? x = some b → x.Bounded → p b) (hdefault : p default) : p b := by
  cases w with
  | none => cases h; exact hdefault
  | some x => exact hread x b h (hw x rfl)

/-- The numbers of a configuration that has been read from a table whose numbers are in bounds. -/
theorem fits_of_read? (h : read? v = some c) (hv : v.Bounded) :
    (∀ k : Key, k.Fits (c.get k)) ∧ c.prefetch.ancestorMaxDepth ≤ Width.maxNat32 := by
  obtain ⟨ws, hws, h⟩ := Option.bind_eq_some_iff.1 h
  have hbounded := bounded_of_record? hws hv
  split at h
  · next g ca wa p r =>
    obtain ⟨general, -, h⟩ := Option.bind_eq_some_iff.1 h
    obtain ⟨cache, hcache, h⟩ := Option.bind_eq_some_iff.1 h
    obtain ⟨watch, -, h⟩ := Option.bind_eq_some_iff.1 h
    obtain ⟨prefetch, hprefetch, h⟩ := Option.bind_eq_some_iff.1 h
    obtain ⟨rpc, hrpc, h⟩ := Option.bind_eq_some_iff.1 h
    cases h
    obtain ⟨httl, hmax⟩ := of_orDefault hcache (hbounded ca (by simp)) (fun _ _ => Cache.fits_of_read?) (by decide)
    have hdepth := of_orDefault hprefetch (hbounded p (by simp)) (fun _ _ => Prefetch.fits_of_read?) (by decide)
    have htimeout := of_orDefault hrpc (hbounded r (by simp)) (fun _ _ => Rpc.fits_of_read?) (by decide)
    refine ⟨fun k => ?_, hdepth⟩
    cases k with
    | ttlSeconds => exact httl
    | maxEntries => exact hmax
    | ancestorMaxDepth => exact Int.le_trans (Int.ofNat_le.2 hdepth) (by decide)
    | timeoutSecs => exact htimeout
    | logFormat | debugLogging | autoRegister | recursive | enabled | metadataDir | ancestorMarkers => trivial
  · contradiction

end

/-- A configuration that has been loaded can be written, and loaded again. -/
theorem kept_of_ofText {path : Path} {text : String} (h : ofText path text = .ok c) : c.Kept := by
  unfold ofText at h
  split at h
  · contradiction
  · next d hd =>
    split at h
    · contradiction
    · next hfault =>
      cases h
      obtain ⟨v, hv, hread⟩ := Option.bind_eq_some_iff.1 hd
      obtain ⟨hfits, hdepth⟩ := fits_of_read? hread (bounded_of_parse? hv)
      obtain ⟨hformat, hdir⟩ := fault?_eq_none_iff.1 hfault
      intro k
      refine ⟨?_, hfits k⟩
      cases k with
      | logFormat => exact hformat
      | metadataDir => exact hdir
      | ancestorMaxDepth => exact hdepth
      | ttlSeconds | maxEntries | debugLogging | autoRegister | recursive | enabled | ancestorMarkers | timeoutSecs =>
        trivial

end Config

end RemoteFacts
