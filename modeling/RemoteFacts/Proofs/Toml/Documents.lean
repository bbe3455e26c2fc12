import Mathlib.Data.List.TakeDrop
import RemoteFacts.Proofs.Toml.Values

/-!
# Documents come back

* `Printer.isSome_document?_iff` : a document can be written just when each value in it can;
* `isBareKey`, `WellNamed` : a key that stands without quotes, and a section with such keys;
* `Reader.line_header`, `Reader.line_field` : the two kinds of lines that the printer writes;
* `Reader.Reads` : a stretch of a document takes the reader from one state to another, whatever follows it;
* `Reader.reads_section?`, `Reader.reads_sections` : what is written for a section, and for a document;
* `parse?_document?` : what is written for sections with different names is read as these sections.
-/

namespace RemoteFacts.Toml

open Lexer

/-! ## What can be written -/

namespace Printer

theorem isSome_mapM_iff {α β : Type} {f : α → Option β} {as : List α} :
    (as.mapM f).isSome = true ↔ ∀ a ∈ as, (f a).isSome = true := by
  induction as with
  | nil => exact iff_of_true rfl (List.forall_mem_nil _)
  | cons a as ih =>
    rw [List.forall_mem_cons, ← ih, List.mapM_cons]
    cases f a with
    | none => simp
    | some b => cases as.mapM f <;> simp

theorem isSome_section?_iff {name : String} {fields : List (String × Toml)} :
    (section? name fields).isSome = true ↔ ∀ f ∈ fields, (value? f.2).isSome = true := by
  rw [section?]
  simp only [Option.pure_def, Option.bind_eq_bind, Option.isSome_bind, Option.isSome_some, Option.any_true,
    isSome_mapM_iff]

theorem isSome_document?_iff {sections : List (String × List (String × Toml))} :
    (document? sections).isSome = true ↔ ∀ s ∈ sections, ∀ f ∈ s.2, (value? f.2).isSome = true := by
  rw [document?]
  simp only [Option.pure_def, Option.bind_eq_bind, Option.isSome_bind, Option.isSome_some, Option.any_true,
    isSome_mapM_iff, isSome_section?_iff]

theorem isSome_integer_iff {n : Nat} : (value? (.integer n)).isSome = true ↔ (n : Int) ≤ Width.maxInt64 := by
  have hmin : Width.minInt64 ≤ n := Int.le_trans (by decide) (Int.natCast_nonneg n)
  rw [value?, leaf?]
  · split
    · next h => exact iff_of_true rfl h.2
    · next h => exact iff_of_false (by simp) fun hn => h ⟨hmin, hn⟩
  · intro items heq
    cases heq

/-- An array of strings can be written. -/
theorem isSome_texts (ss : List String) : (value? (.array (ss.map Toml.text))).isSome = true := by
  have hall : ((ss.map Toml.text).mapM leaf?).isSome = true := isSome_mapM_iff.2 fun v hv => by
    obtain ⟨s, -, rfl⟩ := List.mem_map.1 hv
    rfl
  obtain ⟨ts, hts⟩ := Option.isSome_iff_exists.1 hall
  rw [value?, hts]
  match ts with
  | [] => rfl
  | [_] => rfl
  | _ :: _ :: _ => rfl

end Printer

/-! ## Keys -/

/-- Whether a key can stand without quotes. -/
def isBareKey (name : String) : Bool := !name.toList.isEmpty && name.toList.all Reader.isBare

/-- No name in a section needs quotes, and no field is named twice. -/
structure WellNamed (name : String) (fields : List (String × Toml)) : Prop where
  ofName : isBareKey name = true
  ofField : ∀ f ∈ fields, isBareKey f.1 = true
  distinct : (fields.map (·.1)).Nodup

namespace Reader

variable {c : Char} {cs rest : List Char} {name key : String} {v : Toml} {s : String}

/-- A character of a key is none of those that stand around keys. -/
theorem ne_of_isBare {d : Char} (h : isBare c = true) (hd : isBare d = false) : c ≠ d := by
  rintro rfl
  rw [hd] at h
  exact Bool.noConfusion h

theorem isSolid_of_isBare (h : isBare c = true) : isSolid c = true :=
  isSolid_iff.2 ⟨ne_of_isBare h (by decide), ne_of_isBare h (by decide), ne_of_isBare h (by decide),
    ne_of_isBare h (by decide), ne_of_isBare h (by decide)⟩

theorem exists_of_isBareKey (h : isBareKey name = true) :
    ∃ c cs, name.toList = c :: cs ∧ isBare c = true ∧ ∀ d ∈ c :: cs, isBare d = true := by
  rw [isBareKey, Bool.and_eq_true, List.all_eq_true, Bool.not_eq_true', List.isEmpty_eq_false_iff] at h
  obtain ⟨c, cs, hname⟩ := List.exists_cons_of_ne_nil h.1
  rw [hname] at h
  exact ⟨c, cs, hname, h.2 c List.mem_cons_self, h.2⟩

/-- A key without quotes is read up to the first character that cannot stand in it. -/
theorem simpleKey?_bare (h : isBareKey name = true) (hc : isBare c = false) :
    simpleKey? (name.toList ++ c :: rest) = some (name, c :: rest) := by
  obtain ⟨d, ds, hname, hd, hds⟩ := exists_of_isBareKey h
  have hspan : (name.toList ++ c :: rest).span isBare = (name.toList, c :: rest) := by
    rw [List.span_eq_takeWhile_dropWhile, hname, List.takeWhile_append_of_pos hds, List.dropWhile_append_of_pos hds,
      List.takeWhile_cons_of_neg (by simp [hc]), List.dropWhile_cons_of_neg (by simp [hc]), List.append_nil]
  have htext : String.ofList (d :: ds) = name := by rw [← hname, String.ofList_toList]
  rw [simpleKey?, hspan, hname]
  · exact congrArg (fun s => some (s, c :: rest)) htext
  · rw [hname]
    rintro _ heq
    exact ne_of_isBare hd (by decide) (List.cons.inj heq).1
  · rw [hname]
    rintro _ heq
    exact ne_of_isBare hd (by decide) (List.cons.inj heq).1

theorem keys?_bare (h : isBareKey name = true) (hc : isBare c = false)
    (hdot : ∀ more, skipBlank (c :: rest) ≠ '.' :: more) :
    keys? (name.toList ++ c :: rest) = some ([], name, skipBlank (c :: rest)) := by
  obtain ⟨d, ds, hname, hd, -⟩ := exists_of_isBareKey h
  have hskip : skipBlank (name.toList ++ c :: rest) = name.toList ++ c :: rest := by
    rw [hname]
    exact skipBlank_cons (isSolid_of_isBare hd) _
  have hkeys (fuel : Nat) :
      keysFrom? (fuel + 1) [] (name.toList ++ c :: rest) = some ([name], skipBlank (c :: rest)) := by
    rw [keysFrom?, hskip, simpleKey?_bare h hc]
    dsimp only [Option.bind_eq_bind, Option.bind_some]
    split
    · next heq => exact absurd heq (hdot _)
    · rfl
  rw [keys?, hkeys]
  rfl

/-! ## Lines -/

/-- The header of a section. -/
theorem line_header (h : isBareKey name = true) :
    line ('[' :: (name.toList ++ ']' :: rest)) = some (.openTable [] name, rest) := by
  obtain ⟨d, ds, hname, hd, -⟩ := exists_of_isBareKey h
  have hkeys : keys? (name.toList ++ ']' :: rest) = some ([], name, ']' :: rest) :=
    keys?_bare h (by decide) fun more heq => absurd (List.cons.inj heq).1 (by decide)
  rw [line, skipBlank_cons (by decide)]
  split
  · contradiction
  · next heq => exact absurd (List.cons.inj heq).1 (by decide)
  · next heq => exact absurd (List.cons.inj heq).1 (by decide)
  · next heq => exact absurd (List.cons.inj heq).1 (by decide)
  · next heq =>
    rw [hname] at heq
    exact absurd (List.cons.inj (List.cons.inj heq).2).1 (ne_of_isBare hd (by decide))
  · next heq =>
    rw [← (List.cons.inj heq).2, hkeys]
    rfl
  · next hnone => exact absurd rfl (hnone _)

/-- What is written for a value begins with a character that no reader passes over. -/
theorem value?_eq_cons (h : Printer.value? v = some s) : ∃ c cs, s.toList = c :: cs ∧ isSolid c = true := by
  have hleaf (h : Printer.leaf? v = some s) : ∃ c cs, s.toList = c :: cs ∧ isSolid c = true := by
    obtain ⟨c, cs, hs, hc, -⟩ := leaf?_eq_cons h
    exact ⟨c, cs, hs, hc⟩
  cases v with
  | array vs =>
    obtain ⟨ts, -, h⟩ := Option.bind_eq_some_iff.1 h
    match ts with
    | [] => cases h; exact ⟨_, _, rfl, by decide⟩
    | [t] =>
      cases h
      exact ⟨'[', t.toList ++ [']'], by simp, by decide⟩
    | t :: t' :: ts =>
      cases h
      have htext := toList_itemLines (t :: t' :: ts) []
      rw [List.append_nil] at htext
      exact ⟨'[', _, htext, by decide⟩
  | text | integer | boolean | real | moment | table => exact hleaf h

/-- A field of a section. -/
theorem line_field (h : isBareKey key = true) (hv : Printer.value? v = some s) :
    line (key.toList ++ ' ' :: '=' :: ' ' :: (s.toList ++ '\n' :: rest)) =
      some (.assign [] key v, '\n' :: rest) := by
  obtain ⟨d, ds, hkey, hd, -⟩ := exists_of_isBareKey h
  obtain ⟨c, cs, hs, hc⟩ := value?_eq_cons hv
  have hblank : skipBlank (' ' :: (s.toList ++ '\n' :: rest)) = s.toList ++ '\n' :: rest := by
    rw [hs]
    exact skipBlank_cons hc _
  have hvalue :
      value 0 ((s.toList ++ '\n' :: rest).length + 1) (s.toList ++ '\n' :: rest) = some (v, '\n' :: rest) := by
    refine value_value? hv (by decide) ?_ (.lineBreak rest)
    rw [List.length_append, String.length_toList]
    omega
  have hkeys : keys? (key.toList ++ ' ' :: '=' :: ' ' :: (s.toList ++ '\n' :: rest)) =
      some ([], key, '=' :: ' ' :: (s.toList ++ '\n' :: rest)) :=
    keys?_bare h (by decide) fun more heq => absurd (List.cons.inj heq).1 (by decide)
  have hskip : skipBlank (key.toList ++ ' ' :: '=' :: ' ' :: (s.toList ++ '\n' :: rest)) =
      key.toList ++ ' ' :: '=' :: ' ' :: (s.toList ++ '\n' :: rest) := by
    rw [hkey]
    exact skipBlank_cons (isSolid_of_isBare hd) _
  rw [line, hskip]
  split
  · next heq => rw [hkey] at heq; contradiction
  · next heq => rw [hkey] at heq; exact absurd (List.cons.inj heq).1 (ne_of_isBare hd (by decide))
  · next heq => rw [hkey] at heq; exact absurd (List.cons.inj heq).1 (ne_of_isBare hd (by decide))
  · next heq => rw [hkey] at heq; exact absurd (List.cons.inj heq).1 (ne_of_isBare hd (by decide))
  · next heq => rw [hkey] at heq; exact absurd (List.cons.inj heq).1 (ne_of_isBare hd (by decide))
  · next heq => rw [hkey] at heq; exact absurd (List.cons.inj heq).1 (ne_of_isBare hd (by decide))
  · simp only [hkeys, Option.bind_eq_bind, Option.bind_some, hblank, hvalue]
    rfl

/-! ## Stretches of a document -/

/-- Reading `text` takes the reader from one header and root to another, whatever follows. -/
def Reads (text : List Char) (header : List String) (root : Draft.Fields) (header' : List String)
    (root' : Draft.Fields) : Prop :=
  ∀ rest fuel, (text ++ rest).length < fuel →
    ∃ fuel', rest.length < fuel' ∧ lines fuel header root (text ++ rest) = lines fuel' header' root' rest

section
variable {header header' header'' : List String} {root root' root'' fields : Draft.Fields} {text text' : List Char}

theorem Reads.nil (header : List String) (root : Draft.Fields) : Reads [] header root header root :=
  fun _ fuel hfuel => ⟨fuel, hfuel, rfl⟩

theorem Reads.append (h : Reads text header root header' root') (h' : Reads text' header' root' header'' root'') :
    Reads (text ++ text') header root header'' root'' := by
  intro rest fuel hfuel
  rw [List.append_assoc] at hfuel ⊢
  obtain ⟨fuel₁, hfuel₁, heq⟩ := h (text' ++ rest) fuel hfuel
  obtain ⟨fuel₂, hfuel₂, heq'⟩ := h' rest fuel₁ hfuel₁
  exact ⟨fuel₂, hfuel₂, heq.trans heq'⟩

/-- An empty line. -/
theorem reads_blank (header : List String) (root : Draft.Fields) : Reads ['\n'] header root header root := by
  intro rest fuel hfuel
  rw [List.singleton_append, List.length_cons] at hfuel
  obtain ⟨fuel, rfl⟩ := Nat.exists_eq_add_one.2 (Nat.zero_lt_of_lt hfuel)
  exact ⟨fuel, by omega, rfl⟩

/-- The header of a new section. -/
theorem reads_header (h : isBareKey name = true) (hnew : root.lookup name = none) :
    Reads ('[' :: (name.toList ++ [']', '\n'])) header root [name] (root ++ [(name, .table .header [])]) := by
  intro rest fuel hfuel
  have htext : '[' :: (name.toList ++ [']', '\n']) ++ rest = '[' :: (name.toList ++ ']' :: '\n' :: rest) := by simp
  rw [htext] at hfuel ⊢
  simp only [List.length_cons, List.length_append] at hfuel
  obtain ⟨fuel, rfl⟩ := Nat.exists_eq_add_one.2 (Nat.zero_lt_of_lt hfuel)
  refine ⟨fuel, by omega, ?_⟩
  have hopen : Draft.openTable [] name root = some (root ++ [(name, .table .header [])]) := by
    rw [Draft.openTable, Draft.atPath, hnew]
  have hend : endLine? ('\n' :: rest) = some rest := rfl
  rw [lines, line_header h]
  · simp only [Option.bind_eq_bind, Option.bind_some, hend, hopen, List.nil_append]
  · exact List.cons_ne_nil _ _

end

end Reader

/-! ## Sections -/

namespace Draft

variable {name key : String} {d d' : Draft} {root fields : Fields}

/-- A field as its line leaves it. -/
def ofField (f : String × Toml) : String × Draft := (f.1, .value f.2)

/-- A section as its lines leave it. -/
def ofSection (s : String × List (String × Toml)) : String × Draft := (s.1, .table .header (s.2.map ofField))

theorem ne_of_mem (hnew : name ∉ root.map (·.1)) {f : String × Draft} (hf : f ∈ root) : f.1 ≠ name := by
  rintro rfl
  exact hnew (List.mem_map_of_mem hf)

theorem lookup_eq_none (hnew : name ∉ root.map (·.1)) : root.lookup name = none :=
  List.lookup_eq_none_iff.2 fun _ hf => bne_iff_ne.2 (ne_of_mem hnew hf).symm

theorem lookup_snoc (hnew : name ∉ root.map (·.1)) : (root ++ [(name, d)]).lookup name = some d := by
  rw [List.lookup_append, lookup_eq_none hnew, Option.none_or, List.lookup_cons_self]

theorem set_snoc (hnew : name ∉ root.map (·.1)) : set name d' (root ++ [(name, d)]) = root ++ [(name, d')] := by
  have hothers : root.map (fun f => if f.1 == name then (name, d') else f) = root.map id :=
    List.map_congr_left fun f hf => if_neg (by simpa using ne_of_mem hnew hf)
  rw [set, if_pos (by simp), List.map_append, hothers, List.map_id]
  simp

theorem addNew_of_new (hnew : key ∉ fields.map (·.1)) : addNew key d fields = some (fields ++ [(key, d)]) := by
  refine if_neg fun h => ?_
  obtain ⟨f, hf, heq⟩ := List.any_eq_true.1 h
  exact ne_of_mem hnew hf (eq_of_beq heq)

/-- A field is added to the section that is open. -/
theorem assign_snoc {v : Toml} (hname : name ∉ root.map (·.1)) (hkey : key ∉ fields.map (·.1)) :
    atPath [name] (assign [] key (.value v)) (root ++ [(name, .table .header fields)]) =
      some (root ++ [(name, .table .header (fields ++ [(key, .value v)]))]) := by
  rw [atPath, lookup_snoc hname]
  dsimp only
  rw [atPath, assign, addNew_of_new hkey, Option.map_some, set_snoc hname]

end Draft

namespace Reader

variable {name key s : String} {v : Toml} {header : List String} {root fields : Draft.Fields}

/-- A field of the section that is open. -/
theorem reads_field (hbare : isBareKey key = true) (hv : Printer.value? v = some s)
    (hname : name ∉ root.map (·.1)) (hkey : key ∉ fields.map (·.1)) :
    Reads (key ++ " = " ++ s ++ "\n").toList [name] (root ++ [(name, .table .header fields)])
      [name] (root ++ [(name, .table .header (fields ++ [(key, .value v)]))]) := by
  intro rest fuel hfuel
  have htext : (key ++ " = " ++ s ++ "\n").toList ++ rest =
      key.toList ++ ' ' :: '=' :: ' ' :: (s.toList ++ '\n' :: rest) := by simp
  rw [htext] at hfuel ⊢
  simp only [List.length_cons, List.length_append] at hfuel
  obtain ⟨fuel, rfl⟩ := Nat.exists_eq_add_one.2 (Nat.zero_lt_of_lt hfuel)
  refine ⟨fuel, by omega, ?_⟩
  have hend : endLine? ('\n' :: rest) = some rest := rfl
  rw [lines, line_field hbare hv]
  · simp only [Option.bind_eq_bind, Option.bind_some, hend, Draft.assign_snoc hname hkey]
  · simp

/-- The fields of a section, after those of `fields`. -/
theorem reads_fields {more : List (String × Toml)} {ts : List String}
    (h : List.Forall₂ (fun f t => ∃ s, Printer.value? f.2 = some s ∧ t = f.1 ++ " = " ++ s ++ "\n") more ts)
    (hbare : ∀ f ∈ more, isBareKey f.1 = true) (hname : name ∉ root.map (·.1))
    (hnodup : (fields.map (·.1) ++ more.map (·.1)).Nodup) :
    Reads (ts.flatMap String.toList) [name] (root ++ [(name, .table .header fields)])
      [name] (root ++ [(name, .table .header (fields ++ more.map Draft.ofField))]) := by
  induction h generalizing fields with
  | nil =>
    rw [List.map_nil, List.append_nil]
    exact Reads.nil _ _
  | @cons f t more ts hf _ ih =>
    obtain ⟨s, hs, rfl⟩ := hf
    rw [List.forall_mem_cons] at hbare
    have hkey : f.1 ∉ fields.map (·.1) := fun hmem =>
      (List.nodup_append.1 hnodup).2.2 _ hmem _ List.mem_cons_self rfl
    have hrest := @ih (fields ++ [(f.1, .value f.2)]) hbare.2 (by simpa using hnodup)
    rw [List.append_assoc] at hrest
    exact (reads_field hbare.1 hs hname hkey).append hrest

/-- What is written for a section is read as the section. -/
theorem reads_section? {more : List (String × Toml)} {text : String} (h : Printer.section? name more = some text)
    (hnamed : WellNamed name more) (hname : name ∉ root.map (·.1)) :
    Reads text.toList header root [name] (root ++ [Draft.ofSection (name, more)]) := by
  obtain ⟨ts, hts, h⟩ := Option.bind_eq_some_iff.1 h
  cases h
  have hlines : List.Forall₂ (fun f t => ∃ s, Printer.value? f.2 = some s ∧ t = f.1 ++ " = " ++ s ++ "\n") more ts :=
    (forall₂_of_mapM hts).imp fun f t hft => by
      obtain ⟨s, hs, hft⟩ := Option.bind_eq_some_iff.1 hft
      exact ⟨s, hs, (Option.some.inj hft).symm⟩
  have htext : ("[" ++ name ++ "]\n" ++ String.join ts).toList =
      '[' :: (name.toList ++ [']', '\n']) ++ ts.flatMap String.toList := by simp
  rw [htext]
  exact (reads_header hnamed.ofName (Draft.lookup_eq_none hname)).append
    (reads_fields hlines hnamed.ofField hname hnamed.distinct)

/-- What is written for sections is read as the sections, after those of `root`. -/
theorem reads_sections {sections : List (String × List (String × Toml))} {ts : List String}
    (h : List.Forall₂ (fun s t => Printer.section? s.1 s.2 = some t) sections ts)
    (hnamed : ∀ s ∈ sections, WellNamed s.1 s.2)
    (hnodup : (root.map (·.1) ++ sections.map (·.1)).Nodup) :
    ∃ last, Reads ("\n".intercalate ts).toList header root last (root ++ sections.map Draft.ofSection) := by
  induction h generalizing root header with
  | nil =>
    rw [List.map_nil, List.append_nil]
    exact ⟨header, Reads.nil _ _⟩
  | @cons sec t sections ts hsec hsecs ih =>
    rw [List.forall_mem_cons] at hnamed
    have hnew : sec.1 ∉ root.map (·.1) := fun hmem =>
      (List.nodup_append.1 hnodup).2.2 _ hmem _ List.mem_cons_self rfl
    have hfirst : Reads t.toList header root [sec.1] (root ++ [Draft.ofSection sec]) :=
      reads_section? hsec hnamed.1 hnew
    obtain ⟨last, hrest⟩ := @ih [sec.1] (root ++ [Draft.ofSection sec]) hnamed.2
      (by simpa [Draft.ofSection] using hnodup)
    rw [List.append_assoc] at hrest
    cases hsecs with
    | nil =>
      refine ⟨[sec.1], ?_⟩
      rw [String.intercalate_singleton]
      exact hfirst
    | cons =>
      refine ⟨last, ?_⟩
      rw [String.intercalate_cons_cons, String.toList_append, String.toList_append]
      exact (hfirst.append (reads_blank _ _)).append hrest

end Reader

theorem Draft.finishFields_fields (fields : List (String × Toml)) : finishFields (fields.map ofField) = fields := by
  induction fields with
  | nil => rfl
  | cons f fields ih => rw [List.map_cons, ofField, finishFields, finish, ih]

theorem Draft.finishFields_sections (sections : List (String × List (String × Toml))) :
    finishFields (sections.map ofSection) = sections.map fun s => (s.1, .table s.2) := by
  induction sections with
  | nil => rfl
  | cons s sections ih => rw [List.map_cons, ofSection, finishFields, finish, finishFields_fields, ih, List.map_cons]

/-- No document begins with a byte order mark. -/
theorem toList_document_ne {sections : List (String × List (String × Toml))} {ts : List String}
    (h : sections.mapM (fun s => Printer.section? s.1 s.2) = some ts) (cs : List Char) :
    ("\n".intercalate ts).toList ≠ '\uFEFF' :: cs := by
  cases forall₂_of_mapM h with
  | nil => exact (List.cons_ne_nil _ _).symm
  | @cons s t _ ts hsection _ =>
    obtain ⟨lines, -, hsection⟩ := Option.bind_eq_some_iff.1 hsection
    cases hsection
    rw [String.append_assoc, String.append_assoc, String.intercalate_cons_append]
    simp

/-- What is written for sections with different names is read as the sections. -/
theorem parse?_document? {sections : List (String × List (String × Toml))} {text : String}
    (h : Printer.document? sections = some text) (hnodup : (sections.map (·.1)).Nodup)
    (hnamed : ∀ s ∈ sections, WellNamed s.1 s.2) :
    parse? text = some (.table (sections.map fun s => (s.1, .table s.2))) := by
  obtain ⟨ts, hts, h⟩ := Option.bind_eq_some_iff.1 h
  cases h
  have hsections : ∃ last, Reader.Reads ("\n".intercalate ts).toList [] [] last (sections.map Draft.ofSection) :=
    Reader.reads_sections (forall₂_of_mapM hts) hnamed hnodup
  obtain ⟨last, hreads⟩ := hsections
  have hlines (cs : List Char) (hcs : ("\n".intercalate ts).toList = cs) :
      Reader.lines (cs.length + 1) [] [] cs = some (sections.map Draft.ofSection) := by
    rw [hcs] at hreads
    obtain ⟨fuel, -, heq⟩ := hreads [] (cs.length + 1) (by rw [List.append_nil]; exact Nat.lt_succ_self _)
    rw [List.append_nil] at heq
    rw [heq, Reader.lines]
  unfold parse?
  split
  · next heq => exact absurd heq (toList_document_ne hts _)
  · dsimp only
    rw [hlines _ rfl, Option.map_some, Draft.finishFields_sections]

end RemoteFacts.Toml
