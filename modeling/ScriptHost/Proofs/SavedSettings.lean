import ScriptHost.Proofs.EditedDocuments

/-!
# Saved settings load back

Settings are saved as a document with every key.  A document that lacks some of these keys and has
others besides is read as the same settings with defaults in place of what is missing.
-/

namespace ScriptHost

/-! ## Settings without some keys -/

section

variable (gone : String → Bool)

/-- Settings of a section of which some keys are gone. -/
def ModuleSettings.without (m : ModuleSettings) : ModuleSettings :=
  let other : ModuleSettings := {}
  { pathVar := if gone "path_var" then other.pathVar else m.pathVar
    cpathVar := if gone "cpath_var" then other.cpathVar else m.cpathVar
    path := if gone "path" then other.path else m.path
    cpath := if gone "cpath" then other.cpath else m.cpath
    suffix := if gone "suffix" then other.suffix else m.suffix
    nativeSuffix := if gone "native_suffix" then other.nativeSuffix else m.nativeSuffix
    includeCwd := if gone "include_cwd" then other.includeCwd else m.includeCwd
    nativeModules := if gone "native_modules" then other.nativeModules else m.nativeModules }

def BindingSettings.without (b : BindingSettings) : BindingSettings :=
  let other : BindingSettings := {}
  { assignPolicy := if gone "assign_policy" then other.assignPolicy else b.assignPolicy
    namespaces := if gone "namespaces" then other.namespaces else b.namespaces }

def BridgeSettings.without (b : BridgeSettings) : BridgeSettings :=
  let other : BridgeSettings := {}
  { modules := if gone "modules" then other.modules else b.modules }

def DialectSettings.without (d : DialectSettings) : DialectSettings :=
  let other : DialectSettings := {}
  { parseModule := if gone "parse_module" then other.parseModule else d.parseModule
    compileModule := if gone "compile_module" then other.compileModule else d.compileModule }

def LoggingSettings.without (l : LoggingSettings) : LoggingSettings :=
  let other : LoggingSettings := {}
  { level := if gone "level" then other.level else l.level
    ansi := if gone "ansi" then other.ansi else l.ansi }

end

/-- Settings with defaults for the keys and sections that are gone, told by their paths. -/
def Settings.without (gone : List String → Bool) (s : Settings) : Settings :=
  let other : Settings := {}
  { modules :=
      if gone ["modules"] then other.modules else s.modules.without fun key => gone ["modules", key]
    binding :=
      if gone ["binding"] then other.binding else s.binding.without fun key => gone ["binding", key]
    bridge :=
      if gone ["bridge"] then other.bridge else s.bridge.without fun key => gone ["bridge", key]
    dialect :=
      if gone ["dialect"] then other.dialect else s.dialect.without fun key => gone ["dialect", key]
    logging :=
      if gone ["logging"] then other.logging
      else s.logging.without fun key => gone ["logging", key] }

theorem Settings.without_nothing (s : Settings) : s.without (fun _ => false) = s := rfl

namespace Document

variable {rules : DocumentRules} {gone : List String → Bool} {missing : Bool} {key : String}
  {d : Document} {after : List (String × Document)}

/-! ## Slots -/

theorem lookup_eq_head? (key : String) (entries : List (String × Document)) :
    entries.lookup key = (entries.filter (·.1 == key)).head?.map Prod.snd := by
  induction entries with
  | nil => rfl
  | cons entry entries ih =>
    have same : (key == entry.1) = (entry.1 == key) := BEq.comm
    rw [List.lookup_cons, List.filter_cons, ih, same]
    cases entry.1 == key <;> rfl

theorem Slot.length_le {edited : Document → Prop} (slot : Slot missing key d edited after) :
    (after.filter (·.1 == key)).length ≤ 1 := by
  obtain ⟨none, -⟩ | ⟨-, e, one, -⟩ := slot
  · rw [none]
    exact Nat.zero_le 1
  · rw [one]
    exact Nat.le_refl 1

/-- What is gone has its default, and so has what held nothing. -/
theorem Slot.reads {α : Type} {default value : α} {read : Document → Option α}
    {edited : Document → Prop} (slot : Slot missing key d edited after)
    (reads : ∀ e, edited e → read e = some value) (null : d = .null → default = value) :
    orDefault default read (after.lookup key) = some (if missing then default else value) := by
  rw [lookup_eq_head?]
  obtain ⟨none, rfl | isNull⟩ | ⟨rfl, e, one, isEdit⟩ := slot
  · rw [none]
    rfl
  · rw [none, null isNull, ite_self]
    rfl
  · rw [one]
    exact reads e isEdit

theorem Slot.kept {edited : Document → Prop} (slot : Slot false key d edited after)
    (present : d ≠ .null) : ∃ e, after.lookup key = some e ∧ edited e := by
  obtain ⟨-, gone | null⟩ | ⟨-, e, one, isEdit⟩ := slot
  · cases gone
  · exact absurd null present
  · exact ⟨e, by rw [lookup_eq_head?, one]; rfl, isEdit⟩

/-- Every known key of an edited section comes once at most. -/
theorem slots_edited {entries : List (String × Document)}
    (edited : EditedEntries gone entries after) :
    slots rules (entries.map Prod.fst) (.object after) =
      some ((entries.map Prod.fst).map fun key => after.lookup key) := by
  have once : ((entries.map Prod.fst).all fun key =>
      (after.filter fun entry => entry.1 == key).length ≤ 1) = true := by
    refine List.all_eq_true.2 fun key inside => ?_
    obtain ⟨entry, among, rfl⟩ := List.mem_map.1 inside
    exact decide_eq_true (editedEntries_iff.1 edited entry among).length_le
  exact if_pos once

/-! ## Values -/

theorem Slot.text {value : String}
    (slot : Slot missing key (.text value) (Edited gone (.text value)) after) (default : String) :
    orDefault default asText (after.lookup key) = some (if missing then default else value) := by
  refine slot.reads (fun e edited => ?_) fun null => by cases null
  cases edited
  rfl

theorem Slot.bool {value : Bool}
    (slot : Slot missing key (.bool value) (Edited gone (.bool value)) after) (default : Bool) :
    orDefault default asBool (after.lookup key) = some (if missing then default else value) := by
  refine slot.reads (fun e edited => ?_) fun null => by cases null
  cases edited
  rfl

/-- A text that may be missing is as good as null. -/
theorem Slot.nullable {value : Option String}
    (slot : Slot missing key (ofNullable value) (Edited gone (ofNullable value)) after) :
    orDefault none asNullableText (after.lookup key) =
      some (if missing then none else value) := by
  cases value with
  | none =>
    refine slot.reads (fun e edited => ?_) fun _ => rfl
    cases edited
    rfl
  | some s =>
    refine slot.reads (fun e edited => ?_) fun null => by cases null
    cases edited
    rfl

theorem Slot.choice {α : Type} {names : List (String × α)} {name : String} {value : α}
    (slot : Slot missing key (.text name) (Edited gone (.text name)) after)
    (known : names.lookup name = some value) (default : α) :
    orDefault default (asChoice rules names) (after.lookup key) =
      some (if missing then default else value) := by
  refine slot.reads (fun e edited => ?_) fun null => by cases null
  cases edited
  exact known

theorem mapM_edited {α : Type} {of : α → Document} {read : Document → Option α}
    (reads : ∀ a e, Edited (fun _ => false) (of a) e → read e = some a) {values : List α}
    {items : List Document} (edited : EditedItems (values.map of) items) :
    items.mapM read = some values := by
  induction values generalizing items with
  | nil =>
    cases edited
    rfl
  | cons a values ih =>
    obtain ⟨first, others, rfl, here, there⟩ := edited
    rw [List.mapM_cons, reads a first here, ih there]
    rfl

theorem Slot.list {α : Type} {of : α → Document} {read : Document → Option α} {values : List α}
    (slot : Slot missing key (.list (values.map of)) (Edited gone (.list (values.map of))) after)
    (reads : ∀ a e, Edited (fun _ => false) (of a) e → read e = some a) (default : List α) :
    orDefault default (asList read) (after.lookup key) =
      some (if missing then default else values) := by
  refine slot.reads (fun e edited => ?_) fun null => by cases null
  obtain ⟨items, rfl, each⟩ := edited
  exact mapM_edited reads each

theorem Slot.nested {α : Type} {read : Document → Option α} {value : α}
    {entries : List (String × Document)}
    (slot : Slot missing key (.object entries) (Edited gone (.object entries)) after)
    (reads : ∀ e, Edited gone (.object entries) e → read e = some value) (default : α) :
    orDefault default read (after.lookup key) = some (if missing then default else value) :=
  slot.reads reads fun null => by cases null

/-! ## Sections -/

theorem asModules_edited {m : ModuleSettings} (edited : Edited gone (ofModules m) d) :
    asModules rules d = some (m.without fun key => gone [key]) := by
  obtain ⟨after, rfl, edited⟩ := edited
  have found : slots rules moduleKeys (.object after) = _ := slots_edited edited
  obtain ⟨pathVar, cpathVar, path, cpath, suffix, nativeSuffix, includeCwd, nativeModules, -⟩ :=
    edited
  rw [asModules, found]
  simp only [List.map_cons, Option.bind_eq_bind, Option.bind_some, pathVar.text, cpathVar.text,
    path.nullable, cpath.nullable, suffix.text, nativeSuffix.text, includeCwd.bool,
    nativeModules.bool]
  rfl

/-- Both keys of a namespace are always there. -/
theorem asNamespace_edited (ns : NamespaceSettings) (d : Document)
    (edited : Edited (fun _ => false) (ofNamespace ns) d) : asNamespace rules d = some ns := by
  obtain ⟨after, rfl, edited⟩ := edited
  have found : slots rules ["name", "package"] (.object after) = _ := slots_edited edited
  obtain ⟨name, package, -⟩ := edited
  obtain ⟨_, nameFound, rfl⟩ := name.kept (fun null => by cases null)
  obtain ⟨_, packageFound, rfl⟩ := package.kept (fun null => by cases null)
  rw [asNamespace, found]
  simp only [List.map_cons, Option.bind_eq_bind, Option.bind_some, nameFound, packageFound]
  rfl

theorem policy_named (policy : AssignPolicy) :
    policyNames.lookup policy.name = some policy := by
  cases policy <;> rfl

theorem level_named (level : LogLevel) : levelNames.lookup level.directive = some level := by
  cases level <;> rfl

theorem asBinding_edited {b : BindingSettings} (edited : Edited gone (ofBinding b) d) :
    asBinding rules d = some (b.without fun key => gone [key]) := by
  obtain ⟨after, rfl, edited⟩ := edited
  have found : slots rules ["assign_policy", "namespaces"] (.object after) = _ :=
    slots_edited edited
  obtain ⟨policy, namespaces, -⟩ := edited
  rw [asBinding, found]
  simp only [List.map_cons, Option.bind_eq_bind, Option.bind_some,
    policy.choice (policy_named b.assignPolicy), namespaces.list asNamespace_edited]
  rfl

theorem asBridge_edited {b : BridgeSettings} (edited : Edited gone (ofBridge b) d) :
    asBridge rules d = some (b.without fun key => gone [key]) := by
  obtain ⟨after, rfl, edited⟩ := edited
  have found : slots rules ["modules"] (.object after) = _ := slots_edited edited
  obtain ⟨modules, -⟩ := edited
  have text (s : String) (e : Document) (edited : Edited (fun _ => false) (.text s) e) :
      asText e = some s := by
    cases edited
    rfl
  rw [asBridge, found]
  simp only [List.map_cons, Option.bind_eq_bind, Option.bind_some, modules.list text]
  rfl

theorem asDialect_edited {dialect : DialectSettings} (edited : Edited gone (ofDialect dialect) d) :
    asDialect rules d = some (dialect.without fun key => gone [key]) := by
  obtain ⟨after, rfl, edited⟩ := edited
  have found : slots rules ["parse_module", "compile_module"] (.object after) = _ :=
    slots_edited edited
  obtain ⟨parseModule, compileModule, -⟩ := edited
  rw [asDialect, found]
  simp only [List.map_cons, Option.bind_eq_bind, Option.bind_some, parseModule.text,
    compileModule.text]
  rfl

theorem asLogging_edited {l : LoggingSettings} (edited : Edited gone (ofLogging l) d) :
    asLogging rules d = some (l.without fun key => gone [key]) := by
  obtain ⟨after, rfl, edited⟩ := edited
  have found : slots rules ["level", "ansi"] (.object after) = _ := slots_edited edited
  obtain ⟨level, ansi, -⟩ := edited
  rw [asLogging, found]
  simp only [List.map_cons, Option.bind_eq_bind, Option.bind_some,
    level.choice (level_named l.level), ansi.bool]
  rfl

/-- Edited settings are read with defaults for what is gone. -/
theorem asSettings_edited {s : Settings} (edited : Edited gone (ofSettings s) d) :
    asSettings rules d = some (s.without gone) := by
  obtain ⟨after, rfl, edited⟩ := edited
  have found : slots rules ["modules", "binding", "bridge", "dialect", "logging"]
      (.object after) = _ := slots_edited edited
  obtain ⟨modules, binding, bridge, dialect, logging, -⟩ := edited
  rw [asSettings, found]
  simp only [List.map_cons, Option.bind_eq_bind, Option.bind_some,
    modules.nested fun _ => asModules_edited, binding.nested fun _ => asBinding_edited,
    bridge.nested fun _ => asBridge_edited, dialect.nested fun _ => asDialect_edited,
    logging.nested fun _ => asLogging_edited]
  rfl

/-! ## Whole settings -/

theorem printable_ofNullable (depth : Nat) (value : Option String) :
    Toml.Printable depth (ofNullable value) := by
  cases value with
  | none => exact .null depth
  | some s => exact .line depth (.text s)

/-- A section under known keys. -/
theorem printable_section {depth : Nat} {entries : List (String × Document)} (keys : List String)
    (named : entries.map Prod.fst = keys) (distinct : keys.Nodup)
    (bare : keys.all Toml.isBareKey = true)
    (each : ∀ entry ∈ entries, Toml.Printable depth entry.2) :
    Toml.Printable (depth + 1) (.object entries) := by
  subst named
  refine .table distinct (fun entry inside => ?_) each
  exact List.all_eq_true.1 bare entry.1 (List.mem_map_of_mem inside)

theorem printable_ofModules (m : ModuleSettings) : Toml.Printable 2 (ofModules m) := by
  refine printable_section moduleKeys rfl (by decide) (by decide) ?_
  simp only [List.forall_mem_cons]
  exact ⟨.line _ (.text _), .line _ (.text _), printable_ofNullable _ _, printable_ofNullable _ _,
    .line _ (.text _), .line _ (.text _), .line _ (.bool _), .line _ (.bool _),
    List.forall_mem_nil _⟩

theorem printable_ofNamespace (ns : NamespaceSettings) : Toml.Printable 1 (ofNamespace ns) := by
  refine printable_section ["name", "package"] rfl (by decide) (by decide) ?_
  simp only [List.forall_mem_cons]
  exact ⟨.line _ (.text _), .line _ (.text _), List.forall_mem_nil _⟩

theorem printable_namespaces (namespaces : List NamespaceSettings) :
    Toml.Printable 1 (.list (namespaces.map ofNamespace)) := by
  cases namespaces with
  | nil => exact .line 1 (.texts [])
  | cons ns namespaces =>
    have tables : (ns :: namespaces).map ofNamespace = ((ns :: namespaces).map fun ns =>
        [("name", Document.text ns.name), ("package", .text ns.package)]).map .object := by
      rw [List.map_map]
      rfl
    rw [tables]
    refine .tables (List.cons_ne_nil _ _) fun entries inside => ?_
    obtain ⟨other, -, rfl⟩ := List.mem_map.1 inside
    exact printable_ofNamespace other

theorem printable_ofBinding (b : BindingSettings) : Toml.Printable 2 (ofBinding b) := by
  refine printable_section ["assign_policy", "namespaces"] rfl (by decide) (by decide) ?_
  simp only [List.forall_mem_cons]
  exact ⟨.line _ (.text _), printable_namespaces _, List.forall_mem_nil _⟩

theorem printable_ofBridge (b : BridgeSettings) : Toml.Printable 2 (ofBridge b) := by
  refine printable_section ["modules"] rfl (by decide) (by decide) ?_
  simp only [List.forall_mem_cons]
  exact ⟨.line _ (.texts _), List.forall_mem_nil _⟩

theorem printable_ofDialect (d : DialectSettings) : Toml.Printable 2 (ofDialect d) := by
  refine printable_section ["parse_module", "compile_module"] rfl (by decide) (by decide) ?_
  simp only [List.forall_mem_cons]
  exact ⟨.line _ (.text _), .line _ (.text _), List.forall_mem_nil _⟩

theorem printable_ofLogging (l : LoggingSettings) : Toml.Printable 2 (ofLogging l) := by
  refine printable_section ["level", "ansi"] rfl (by decide) (by decide) ?_
  simp only [List.forall_mem_cons]
  exact ⟨.line _ (.text _), .line _ (.bool _), List.forall_mem_nil _⟩

/-- Settings are written as sections that hold values and lists of sections. -/
theorem printable_ofSettings (s : Settings) : Toml.Printable 3 (ofSettings s) := by
  refine printable_section ["modules", "binding", "bridge", "dialect", "logging"] rfl (by decide)
    (by decide) ?_
  simp only [List.forall_mem_cons]
  exact ⟨printable_ofModules _, printable_ofBinding _, printable_ofBridge _, printable_ofDialect _,
    printable_ofLogging _, List.forall_mem_nil _⟩

end Document

namespace Settings

theorem ofText_document? {format : SettingsFormat} {s : Settings} {gone : List String → Bool}
    {d : Document} {text : String} (edited : Document.Edited gone (.ofSettings s) d)
    (read : format.document? text = some d) : ofText format text = .ok (s.without gone) := by
  cases format with
  | json =>
    have found : ofJson? text = some (s.without gone) := by
      rw [ofJson?, show Json.parse? text = some d from read]
      exact Document.asSettings_edited edited
    rw [ofText, SettingsFormat.read?, found]
  | toml =>
    have found : ofToml? text = some (s.without gone) := by
      rw [ofToml?, show Toml.parse? text = some d from read]
      exact Document.asSettings_edited edited
    rw [ofText, SettingsFormat.read?, found]

theorem ofText_print_cut (s : Settings) (format : SettingsFormat) (gone : List String → Bool) :
    ofText format (format.print (Document.cut gone (.ofSettings s))) = .ok (s.without gone) := by
  have printable := Document.printable_ofSettings s
  obtain ⟨d, read, edited⟩ := format.document?_print (show 2 ≤ Toml.depthLimit by decide)
    (Document.printable_cut printable gone) (Document.edited_cut printable gone)
  exact ofText_document? edited read

/--
Saved settings load back.  With some keys taken away, or under unknown ones, they load as the same
settings with defaults for what is gone.
-/
theorem saved_loads (s : Settings) (format : SettingsFormat) :
    ofText format (format.write s) = .ok s ∧ ∀ gone : List String → Bool,
      ofText format (format.print (Document.cut gone (.ofSettings s))) = .ok (s.without gone) ∧
      ∀ d text, Document.Edited gone (.ofSettings s) d → format.document? text = some d →
        ofText format text = .ok (s.without gone) := by
  have whole := ofText_print_cut s format fun _ => false
  rw [Document.cut_nothing, without_nothing] at whole
  refine ⟨?_, fun gone => ⟨ofText_print_cut s format gone, fun d text => ofText_document?⟩⟩
  cases format <;> exact whole

/-- Settings with a namespace. -/
def storeSettings : Settings where
  binding := ⟨.strict, [⟨"store", "store"⟩]⟩
  logging := ⟨.debug, false⟩

/-- Some of these settings in another order and with a key that is not known. -/
def storeDocument : Document := .object [
  ("logging", .object [("colour", .text "none"), ("level", .text "debug")]),
  ("binding", .object [
    ("namespaces", .list [.object [("package", .text "store"), ("name", .text "store")]]),
    ("assign_policy", .text "strict")])]

theorem saved_loads_store :
    Document.Edited (fun path => path ∈ [["modules"], ["bridge"], ["dialect"], ["logging", "ansi"]])
      (.ofSettings storeSettings) storeDocument ∧
    SettingsFormat.json.document? (Json.render 0 storeDocument) = some storeDocument ∧
    ofText .json (Json.render 0 storeDocument) =
      .ok { storeSettings with logging := ⟨.debug, true⟩ } := by
  have edited : Document.Edited
      (fun path => path ∈ [["modules"], ["bridge"], ["dialect"], ["logging", "ansi"]])
      (.ofSettings storeSettings) storeDocument := by
    simp [storeSettings, storeDocument, Document.Edited, Document.EditedEntries,
      Document.EditedItems, Document.Slot, Document.ofSettings, Document.ofBinding,
      Document.ofNamespace, Document.ofLogging, -List.filter_eq_nil_iff,
      AssignPolicy.name, LogLevel.directive]
  have read : SettingsFormat.json.document? (Json.render 0 storeDocument) = some storeDocument :=
    Json.parse?_render
      (by simp [storeDocument, Document.Written, Document.WrittenEntries, Document.WrittenItems])
  exact ⟨edited, read, ((saved_loads storeSettings .json).2 _).2 _ _ edited read⟩

end Settings

end ScriptHost
