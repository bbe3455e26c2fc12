import RemoteFacts.CommandLine.Program
import RemoteFacts.Proofs.Config.Rendering
import RemoteFacts.Proofs.Files

/-!
# Changing a value in the file

* `Config.kept_of_loadFrom`, `Config.Place.save_of_file`, `Config.loadFrom_put` : what has been loaded, what is saved
  over it, and what is loaded then;
* `Program.setConfig_of_refuses`, `Program.setConfig_of_sets` : a change that is refused leaves the files alone, any
  other one puts one value in place of another;
* `Program.setIn` : the files after a change, as the program makes it (`run_set`);
* `Program.set_changes_one_value_or_nothing` : so it is with each change to a file that can be loaded, and after any
  number of them the file holds what has become of the configuration.
-/

namespace RemoteFacts

namespace Config

variable {c : Config} {t : FileTree} {path : Path} {p : Place} {l : Location} {old : List UInt8} {text : String}

/-! ## Loading and saving -/

theorem kept_of_loadFrom (h : loadFrom path t = .ok c) : c.Kept ∧ ∃ l bytes, t.FileAt path l bytes := by
  unfold loadFrom at h
  dsimp only at h
  split at h
  · contradiction
  · next bytes hread =>
    split at h
    · contradiction
    · obtain ⟨l, hfile⟩ := FileTree.exists_fileAt_of_read hread
      exact ⟨kept_of_ofText h, l, bytes, hfile⟩

/-- A document that has been written over a file is loaded. -/
theorem loadFrom_put (h : t.FileAt path l old) (htext : ofText path text = .ok c) :
    loadFrom path (t.put l (.file (Text.Utf8.encode text))) = .ok c := by
  have hread := (h.put (Text.Utf8.encode text)).read
  rw [loadFrom]
  simp only [hread, Text.Utf8.decode?_encode, htext]

namespace Place

/-- A file that can be loaded is there, so that no default takes its place. -/
theorem load_of_loadFrom (h : loadFrom p.path t = .ok c) : p.load t = .ok c ∧ p.loadOrDefault t = .ok c := by
  obtain ⟨-, l, bytes, hfile⟩ := kept_of_loadFrom h
  have hdefault : p.loadOrDefault t = .ok c := by rw [loadOrDefault, if_pos hfile.holds, h]
  exact ⟨by rw [load, hfile.holds, Bool.not_true, Bool.and_false, if_neg Bool.false_ne_true, hdefault], hdefault⟩

theorem makeRoom_of_file (h : t.FileAt p.path l old) : p.makeRoom t = (.ok (), t) := by
  unfold makeRoom
  split
  · rfl
  · next dir hparent => rw [h.makeDirectories hparent]

/-- Over a file a configuration is written, unless it cannot be. -/
theorem save_of_file (h : t.FileAt p.path l old) (c : Config) :
    p.save c t = match c.render with
      | .error e => (.error e, t)
      | .ok text => (.ok (), t.put l (.file (Text.Utf8.encode text))) := by
  rw [save, makeRoom_of_file h]
  dsimp only
  cases c.render with
  | error e => rfl
  | ok text => simp only [h.write]

end Place

end Config

namespace CommandLine.Program

open Config

variable {c : Config} {t : FileTree} {p : Config.Place} {l : Location} {old : List UInt8} {name text : String}
  {k : Key} {v : k.Value} {e : Error}

/-! ## One change -/

/-- A change that is refused leaves the files alone. -/
theorem setConfig_of_refuses (hfile : t.FileAt p.path l old) (h : Refuses name text e) :
    (setConfig p c name text t).failure = some e ∧ (setConfig p c name text t).files = t := by
  unfold setConfig
  cases h with
  | unknown hname =>
    rw [Key.parse?_eq_none_iff.2 hname]
    exact ⟨rfl, rfl⟩
  | @unreadable k hname hspelled =>
    rw [Key.parse?_eq_some_iff.2 hname]
    dsimp only
    rw [set_eq]
    cases hvalue : k.valueOf text with
    | ok v => exact absurd (valueOf_eq_ok_iff.1 hvalue) (hspelled v)
    | error e => exact ⟨congrArg some (eq_complaint_of_valueOf hvalue), rfl⟩
  | @unwritable k v hname hspelled hfits =>
    have hrender : (c.put k v).render = _ := render_of_not_fits (k := k) (by rwa [get_put_self])
    rw [Key.parse?_eq_some_iff.2 hname]
    dsimp only
    rw [set_eq, valueOf_eq_ok_iff.2 hspelled]
    simp only [Except.map, Place.save_of_file hfile, hrender]
    exact ⟨rfl, rfl⟩

/-- Any other change puts a value in place of another, and nothing else is different then. -/
theorem setConfig_of_sets (hc : c.Kept) (hfile : t.FileAt p.path l old) (h : Sets name text k v) :
    ∃ document, setConfig p c name text t =
      .ok (t.put l (.file (Text.Utf8.encode document))) (Layout.succeeded s!"Set {name} = {text}") ∧
      ∀ path, ofText path document = .ok (c.put k v) := by
  obtain ⟨document, hrender, hload⟩ := exists_render_of_kept (hc.put h.spelled.admits h.fits)
  refine ⟨document, ?_, hload⟩
  rw [setConfig, Key.parse?_eq_some_iff.2 h.named]
  dsimp only
  rw [set_eq, valueOf_eq_ok_iff.2 h.spelled]
  simp only [Except.map, Place.save_of_file hfile, hrender]

/-! ## Any number of changes -/

/-- The files after a change to what has been loaded from them. -/
def setIn (p : Config.Place) (t : FileTree) (change : String × String) : FileTree :=
  match p.loadOrDefault t with
  | .ok c => (setConfig p c change.1 change.2 t).files
  | .error _ => t

/-- These are the files that the program leaves behind. -/
theorem run_set {s : Surroundings} {words flags : List String} {values : List (String × String)}
    (hread : Grammar.read grammar words = .run ["config", "set"] values flags [name, text])
    (hnamed : emptyVariable s ["config", "set"] values = false) :
    (run s words).files = setIn (place values s) s.files (name, text) := by
  have hload : loadFor ["config", "set"] (place values s) s.files = (place values s).loadOrDefault s.files := rfl
  rw [run, hread]
  dsimp only
  rw [if_neg (by rw [hnamed]; exact Bool.false_ne_true), hload, setIn]
  cases (place values s).loadOrDefault s.files with
  | error e => rfl
  | ok c =>
    have hperform : perform (place values s) c ["config", "set"] values flags [name, text] s.files =
        setConfig (place values s) c name text s.files := rfl
    dsimp only
    rw [hperform]
    cases (setConfig (place values s) c name text s.files).failure <;> rfl

/-- What is in the file after a change is what has become of the configuration. -/
theorem loadFrom_setIn (h : loadFrom p.path t = .ok c) (change : String × String) :
    loadFrom p.path (setIn p t change) = .ok (c.edit change) := by
  obtain ⟨name, text⟩ := change
  obtain ⟨hc, l, bytes, hfile⟩ := kept_of_loadFrom h
  rw [setIn, (Place.load_of_loadFrom h).2]
  dsimp only
  rcases refuses_or_sets name text with ⟨e, hrefused⟩ | ⟨k, v, hset⟩
  · rw [(setConfig_of_refuses hfile hrefused).2, edit_of_refuses hrefused]
    exact h
  · obtain ⟨document, heq, hload⟩ := setConfig_of_sets hc hfile hset
    rw [heq, edit_of_sets hset]
    exact loadFrom_put hfile (hload p.path)

theorem loadFrom_foldl_setIn (h : loadFrom p.path t = .ok c) (changes : List (String × String)) :
    loadFrom p.path (changes.foldl (setIn p) t) = .ok (changes.foldl edit c) := by
  induction changes generalizing t c with
  | nil => exact h
  | cons change changes ih => exact ih (loadFrom_setIn h change)

/-- A change to a file that can be loaded is refused, and then no file is different; or the text stands for a value, and
then the file can be loaded and holds the configuration with that value in place of one other. After any number of
changes the file can be loaded, and holds what those that were not refused have made of the configuration. -/
theorem set_changes_one_value_or_nothing (hloaded : loadFrom p.path t = .ok c) :
    (∀ name text, (∃ e, Refuses name text e) ∨ ∃ k v, Sets name text k v) ∧
    (∀ name text e, Refuses name text e →
      (setConfig p c name text t).failure = some e ∧ (setConfig p c name text t).files = t) ∧
    (∀ name text k v, Sets name text k v →
      (setConfig p c name text t).failure = none ∧
      (∃ l bytes, t.locate p.path = .ok l ∧ (setConfig p c name text t).files = t.put l (.file bytes)) ∧
      ∃ d, p.load (setConfig p c name text t).files = .ok d ∧ d.fault? = none ∧
        (d.general.logFormat = "text" ∨ d.general.logFormat = "json") ∧ d.prefetch.metadataDir ≠ "" ∧
        d.get k = v ∧ ∀ j, j ≠ k → d.get j = c.get j) ∧
    ∀ changes : List (String × String), ∃ d, Edits c changes d ∧ p.load (changes.foldl (setIn p) t) = .ok d := by
  obtain ⟨hc, l, bytes, hfile⟩ := kept_of_loadFrom hloaded
  refine ⟨refuses_or_sets, fun name text e hrefused => setConfig_of_refuses hfile hrefused,
    fun name text k v hset => ?_, fun changes => ⟨_, edits_iff.2 rfl,
      (Place.load_of_loadFrom (loadFrom_foldl_setIn hloaded changes)).1⟩⟩
  obtain ⟨document, heq, hload⟩ := setConfig_of_sets hc hfile hset
  have hfrom := loadFrom_put hfile (hload p.path)
  have hkept := (kept_of_loadFrom hfrom).1
  have hformat := (hkept .logFormat).1
  have hdirectory := (hkept .metadataDir).1
  rw [heq]
  exact ⟨rfl, ⟨l, _, hfile.locate, rfl⟩, c.put k v, (Place.load_of_loadFrom hfrom).1,
    fault?_eq_none_iff.2 ⟨hformat, hdirectory⟩, hformat, hdirectory, get_put_self c k v, fun j hj => get_put_of_ne hj⟩

/-- A file that gives one value of its own. -/
def cacheFile : FileTree := ⟨[(["c.toml"], .file (Text.Utf8.encode "[cache]\nttlSeconds = 5\n"))], []⟩

/-- Ten changes to it. The first six are refused, for want of such a key, of a value or of room; the others are not. -/
def tenChanges : List (String × String) :=
  [("rpc", "8"), ("rpc.timeout_secs", "soon"), ("cache.ttl_seconds", "18446744073709551615"),
    ("watch.recursive", "maybe"), ("general.log_format", "xml"), ("prefetch.metadata_dir", ""),
    ("rpc.timeout_secs", "+7"), ("watch.recursive", "nO"), ("general.log_format", "json"),
    ("prefetch.ancestor_markers", " .hg,, .git ")]

theorem exists_refuses_of_mem : ∀ change ∈ tenChanges.take 6, ∃ e, Refuses change.1 change.2 e := by
  have hnone : ∀ change ∈ tenChanges.take 6, (request change.1 change.2).toBool = false := by decide +kernel
  intro change hchange
  rcases refuses_or_sets change.1 change.2 with hrefused | ⟨k, v, hset⟩
  · exact hrefused
  · have hfalse := hnone change hchange
    rw [request_eq_ok_iff.2 hset] at hfalse
    contradiction

/-- A word for a truth value in letters of both cases. -/
theorem sets_recursive : Sets "watch.recursive" "nO" .recursive false :=
  ⟨rfl, .no (show "no" ∈ ["false", "0", "no"] by decide) (.cons (Or.inl rfl) (.cons (Or.inr rfl) .nil)), trivial⟩

/-- Each kind of change that is refused, and one of each kind of key that is not. -/
theorem set_changes_one_value_or_nothing_of_cacheFile :
    let p : Config.Place := ⟨⟨"/c.toml"⟩, true⟩
    ∃ c, loadFrom p.path cacheFile = .ok c ∧ c.cache.ttlSeconds = 5 ∧ c.watch.recursive = true ∧
      (∀ change ∈ tenChanges.take 6, (setConfig p c change.1 change.2 cacheFile).files = cacheFile) ∧
      (∃ d, p.load (setConfig p c "watch.recursive" "nO" cacheFile).files = .ok d ∧ d.watch.recursive = false ∧
        d.cache.ttlSeconds = 5) ∧
      p.load (tenChanges.foldl (setIn p) cacheFile) = .ok { c with
        rpc.timeoutSecs := 7
        watch.recursive := false
        general.logFormat := "json"
        prefetch.ancestorMarkers := [".hg", ".git"] } := by
  intro p
  have hsome : (loadFrom ⟨"/c.toml"⟩ cacheFile).toOption = some { cache := { ttlSeconds := 5 } } := by decide +kernel
  have hloaded : loadFrom p.path cacheFile = .ok { cache := { ttlSeconds := 5 } } := by
    cases h : loadFrom ⟨"/c.toml"⟩ cacheFile with
    | error e => rw [h] at hsome; cases hsome
    | ok c => rw [h] at hsome; rw [Option.some.inj hsome]
  obtain ⟨-, hrefused, hset, hall⟩ := set_changes_one_value_or_nothing hloaded
  obtain ⟨-, -, d, hd, -, -, -, hnew, hold⟩ := hset _ _ _ _ sets_recursive
  obtain ⟨final, hedits, hfinal⟩ := hall tenChanges
  refine ⟨_, hloaded, rfl, rfl, fun change hchange => ?_, ⟨d, hd, hnew, hold .ttlSeconds (by decide)⟩, ?_⟩
  · obtain ⟨e, he⟩ := exists_refuses_of_mem change hchange
    exact (hrefused _ _ e he).2
  · rw [hfinal, ← edits_iff.1 hedits]
    exact congrArg Except.ok (by decide +kernel)

end CommandLine.Program

end RemoteFacts
